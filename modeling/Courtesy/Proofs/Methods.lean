import Mathlib.Data.List.Nodup
import Courtesy.Proofs.Calls
import Courtesy.Proofs.Layout
import Courtesy.Proofs.Verdict

/-!
# The methods of a program

A program against which nothing is told declares one method for each function of its table, in the
order in which the functions were entered, and no function is entered twice (`Run.methods_before`).
Methods are named as their functions are, with one exception: `main` becomes `Main`. So all methods
have different names exactly when no function is itself called `Main` (`declared_methods`).
-/

namespace Courtesy

open Text Statement

/-! ## Lines of code that declare a method -/

namespace Target

/-- What a line of code starts with that declares a method. -/
def methodLead : List Char :=
  ['p', 'u', 'b', 'l', 'i', 'c', ' ', 's', 't', 'a', 't', 'i', 'c', ' ']

/-- The name of the method that a line of code declares, which reads `public static TYPE NAME(`
behind its indentation. -/
def declaredMethod? (line : String) : Option String :=
  let code := (Layout.content line).toList
  if methodLead.isPrefixOf code then
    let typed := code.drop methodLead.length
    some (String.ofList (((typed.dropWhile (· != ' ')).drop 1).takeWhile (· != '(')))
  else none

/-- The names of the methods that lines of code declare. -/
def declaredMethods (body : List String) : List String := body.filterMap declaredMethod?

example : declaredMethod? "    public static int f(int x)" = some "f" := by decide +kernel

theorem declaredMethods_append (xs ys : List String) :
    declaredMethods (xs ++ ys) = declaredMethods xs ++ declaredMethods ys :=
  List.filterMap_append

/-- A text that declares no method at any depth. -/
def Silent (code : String) : Prop := ∀ level, declaredMethod? (indent level ++ code) = none

theorem silent_of_not_lead {code : String} {c : Char} {cs : List Char} (h : code.toList = c :: cs)
    (hc : c ≠ ' ') (hlead : ¬ methodLead <+: code.toList) : Silent code := by
  intro level
  have hlead : methodLead.isPrefixOf code.toList = false := by
    rwa [Bool.eq_false_iff, ne_eq, List.isPrefixOf_iff_prefix]
  simp only [declaredMethod?, Layout.content_indent h hc, hlead, Bool.false_eq_true, ↓reduceIte]

/-- A text that starts neither with a space nor as a method does. -/
def StartsApart (code : String) : Prop := ∃ c cs, code.toList = c :: cs ∧ c ≠ ' ' ∧ c ≠ 'p'

theorem StartsApart.append {code : String} (h : StartsApart code) (more : String) :
    StartsApart (code ++ more) := by
  obtain ⟨c, cs, hcode, hc⟩ := h
  exact ⟨c, cs ++ more.toList, by rw [String.toList_append, hcode]; rfl, hc⟩

theorem StartsApart.silent {code : String} (h : StartsApart code) : Silent code := by
  obtain ⟨c, cs, hcode, hspace, hp⟩ := h
  refine silent_of_not_lead hcode hspace fun hlead => ?_
  rw [hcode] at hlead
  exact hp (List.cons_prefix_cons.1 hlead).1.symm

/-- The lead of a method has two spaces in front of any character that it does not have. -/
theorem silent_of_spaces {code : String} {front rest : List Char} {c : Char}
    (hword : Layout.StartsWord code) (h : code.toList = front ++ c :: rest) (hc : c ∉ methodLead)
    (hfront : front.count ' ' < 2) : Silent code := by
  obtain ⟨d, ds, hcode, hd⟩ := hword
  have hspace : d ≠ ' ' := by
    rintro rfl
    exact absurd hd (by decide)
  refine silent_of_not_lead hcode hspace fun hlead => ?_
  rw [h] at hlead
  have hlead : methodLead <+: front := by
    rcases List.prefix_or_prefix_of_prefix hlead (List.prefix_append front (c :: rest)) with hp | hp
    · exact hp
    · obtain ⟨more, hmore⟩ := hp
      rw [← hmore, List.prefix_append_right_inj] at hlead
      cases more with
      | nil =>
        exact ⟨[], by rw [List.append_nil, ← hmore, List.append_nil]⟩
      | cons d more =>
        obtain ⟨rfl, -⟩ := List.cons_prefix_cons.1 hlead
        exact absurd (by rw [← hmore]; simp) hc
  have hcount : methodLead.count ' ' ≤ front.count ' ' := hlead.sublist.count_le ' '
  have htwo : methodLead.count ' ' = 2 := by decide
  omega

theorem silent_openBrace : Silent "\x7b" :=
  StartsApart.silent ⟨'{', [], rfl, by decide, by decide⟩

theorem silent_closeBrace : Silent "\x7d" :=
  StartsApart.silent ⟨'}', [], rfl, by decide, by decide⟩

theorem silent_headed {head : String} (h : StartsApart head) :
    ∀ line ∈ headed head, Silent line := by
  intro line hline
  rcases List.mem_cons.1 hline with rfl | hline
  · exact h.silent
  · rw [List.mem_singleton.1 hline]
    exact silent_openBrace

theorem declaredMethods_silent {code : List String} (h : ∀ line ∈ code, Silent line) (level : Nat) :
    declaredMethods (code.map (indent level ++ ·)) = [] := by
  rw [declaredMethods, List.filterMap_eq_nil_iff]
  intro line hline
  obtain ⟨text, htext, rfl⟩ := List.mem_map.1 hline
  exact h text htext level

theorem space_not_mem_target (type : ValueType) : ' ' ∉ type.target.toList := by
  cases type <;> decide

theorem toList_methodHead (f : Signature) : ∃ more, (methodHead f).toList = methodLead ++
    (f.result.target.toList ++ ' ' :: ((methodName f.name).toList ++ '(' :: more)) := by
  have hlead : "public static ".toList = methodLead := rfl
  have hspace : " ".toList = [' '] := rfl
  have hparen : "(".toList = ['('] := rfl
  let decl := ", ".intercalate (f.params.map fun p => p.type.target ++ " " ++ p.name)
  refine ⟨(decl ++ ")").toList, ?_⟩
  rw [methodHead_eq]
  simp only [String.toList_append, hlead, hspace, hparen, List.append_assoc, List.cons_append,
    List.nil_append, decl]

/-- The head of a method declares the method. -/
theorem declaredMethod?_methodHead {f : Signature} (h : '(' ∉ (methodName f.name).toList)
    (level : Nat) :
    declaredMethod? (indent level ++ methodHead f) = some (methodName f.name) := by
  obtain ⟨more, hmore⟩ := toList_methodHead f
  have hword : Layout.StartsWord (methodHead f) := ⟨'p', _, hmore, by decide⟩
  have htype : ∀ cs, (f.result.target.toList ++ ' ' :: cs).dropWhile (· != ' ') = ' ' :: cs := by
    intro cs
    rw [List.dropWhile_append_of_pos]
    · rfl
    · intro c hc
      rw [bne_iff_ne]
      rintro rfl
      exact space_not_mem_target f.result hc
  have hname : ((methodName f.name).toList ++ '(' :: more).takeWhile (· != '(') =
      (methodName f.name).toList := by
    rw [List.takeWhile_append_of_pos]
    · simp
    · intro c hc
      rw [bne_iff_ne]
      rintro rfl
      exact h hc
  have hlead : methodLead.isPrefixOf (methodHead f).toList = true :=
    List.isPrefixOf_iff_prefix.2 ⟨_, hmore.symm⟩
  simp only [declaredMethod?, hword.content_indent, hlead, ↓reduceIte]
  rw [hmore, List.drop_left, htype, List.drop_succ_cons, List.drop_zero, hname,
    String.ofList_toList]

/-- Two functions are emitted under one name only if they are `main` and `Main`. -/
theorem methodName_eq_iff {a b : String} :
    methodName a = methodName b ↔ a = b ∨ (a = "main" ∧ b = "Main") ∨
      (a = "Main" ∧ b = "main") := by
  simp only [methodName, beq_iff_eq]
  split <;> split
  · simp [*]
  · rename_i ha hb
    simp [ha, Ne.symm hb, eq_comm]
  · simp [*]
  · simp [*]

/-- Different functions have different methods unless they are `main` and `Main`. -/
theorem nodup_map_methodName {names : List String} (h : names.Nodup) :
    (names.map methodName).Nodup ↔ ¬ ("main" ∈ names ∧ "Main" ∈ names) := by
  constructor
  · rintro hmap ⟨hlow, hup⟩
    have heq := List.inj_on_of_nodup_map hmap hlow hup (by decide)
    exact absurd heq (by decide)
  · intro hboth
    refine List.Nodup.map_on (fun a ha b hb hab => ?_) h
    rcases methodName_eq_iff.1 hab with rfl | ⟨rfl, rfl⟩ | ⟨rfl, rfl⟩
    · rfl
    · exact absurd ⟨ha, hb⟩ hboth
    · exact absurd ⟨hb, ha⟩ hboth

end Target

/-! ## What an accepted line declares -/

namespace Statement

open Target Layout

section

variable {st st' : State} {first : Token} {rest : List Token} {o : Opening}

theorem word_of_identifier {t : Token} (h : t.Valid) (hk : t.kind = .identifier) :
    ∀ c ∈ t.text.toList, isWordChar c = true :=
  Literal.isWordChar_of_isIdentifier (identified_of_classify (h.1.symm.trans hk)).isIdentifier

theorem word_methodName {name : String} (h : ∀ c ∈ name.toList, isWordChar c = true) :
    ∀ c ∈ (methodName name).toList, isWordChar c = true := by
  unfold methodName
  split
  · have hmain : "Main".toList.all isWordChar = true := by decide
    exact List.all_eq_true.1 hmain
  · exact h

theorem count_space_of_word {cs : List Char} (h : ∀ c ∈ cs, isWordChar c = true) :
    cs.count ' ' = 0 := by
  rw [List.count_eq_zero]
  intro hmem
  exact absurd (h ' ' hmem) (by decide)

theorem silent_assignment {scope : Scope} {line : String} (hts : ∀ t ∈ first :: rest, t.Sound)
    (hk : first.kind = .identifier) (h : assignment scope (first :: rest) = .ok line) :
    Silent line := by
  obtain ⟨name, _, _, _, _, code, htokens, -, -, -, rfl⟩ := assignment_ok h
  cases htokens
  have hvalid := (hts first List.mem_cons_self).valid
  have hword : StartsWord first.text := startsWord_of_identifier hvalid hk
  have hlist : (first.text ++ " = " ++ code ++ ";").toList =
      (first.text.toList ++ [' ']) ++ '=' :: ' ' :: (code ++ ";").toList := by
    have hequals : " = ".toList = [' ', '=', ' '] := rfl
    simp only [String.toList_append, hequals, List.append_assoc, List.cons_append, List.nil_append]
  refine silent_of_spaces (((hword.append _).append _).append _) hlist (by decide) ?_
  rw [List.count_append, count_space_of_word (word_of_identifier hvalid hk)]
  decide

theorem silent_callStatement {scope : Scope} {line : String} (hts : ∀ t ∈ first :: rest, t.Sound)
    (h : callStatement scope (first :: rest) = .ok line) : Silent line := by
  obtain ⟨c, hc, rfl⟩ := callStatement_ok h
  have hrest : ∀ t ∈ rest, t.Sound := fun t ht => hts t (List.mem_cons_of_mem first ht)
  have hword := startsWord_call hrest hc
  obtain ⟨name, _, _, _, _, codes, htokens, hname, -, -, -, -, -, -, hcode⟩ := call_ok hc
  have hvalid := (hrest name (by rw [show rest = _ from htokens]; simp)).valid
  have hlist : (c.code ++ ";").toList =
      (methodName name.text).toList ++ '(' :: (", ".intercalate codes ++ ")" ++ ";").toList := by
    have hparen : "(".toList = ['('] := rfl
    simp only [hcode, String.toList_append, hparen, List.append_assoc, List.cons_append,
      List.nil_append]
  refine silent_of_spaces (hword.append _) hlist (by decide) ?_
  rw [count_space_of_word (word_methodName (word_of_identifier hvalid hname))]
  decide

theorem silent_declaration {scope scope' : Scope} {line : String}
    (hts : ∀ t ∈ first :: rest, t.Sound)
    (h : declaration scope (first :: rest) = .ok (scope', line)) : Silent line := by
  obtain ⟨_, typeToken, _, _, initial, htokens, htype, -, -, -, -, -, -, rfl⟩ := declaration_ok h
  have hvalid := (hts typeToken (by rw [htokens]; simp)).valid
  obtain ⟨type, hname⟩ := ofName?_of_typeName (hvalid.1.symm.trans htype)
  have hall : ∀ type ∈ ValueType.declared, StartsApart type.target := by
    simp [ValueType.declared, ValueType.target, StartsApart]
  have hapart : StartsApart ((ValueType.ofName? typeToken.text).getD .invalid).target := by
    rw [hname]
    exact hall type (List.mem_of_find?_eq_some hname)
  exact (((hapart.append _).append _).append _).silent

/-- No statement but a definition declares a method. -/
theorem Performed.silent (hts : ∀ t ∈ first :: rest, t.Sound)
    (h : Performed st (first :: rest) first.kind ⟨st', .ok o⟩) (hk : first.kind ≠ .define) :
    ∀ line ∈ o.code, Silent line := by
  have single : ∀ {line : String}, Silent line → ∀ line' ∈ [line], Silent line' := by
    intro line hline line' hmem
    rwa [List.mem_singleton.1 hmem]
  generalize hkind : first.kind = kind at h hk
  generalize hout : (⟨st', .ok o⟩ : Outcome) = outcome at h
  cases h with
  | defined => exact absurd rfl hk
  | refused => cases hout
  | created hok =>
    cases hout
    exact single (silent_declaration hts hok)
  | assigned hok =>
    cases hout
    exact single (silent_assignment hts hkind hok)
  | called hok =>
    cases hout
    exact single (silent_callStatement hts hok)
  | printed hok =>
    cases hout
    obtain ⟨_, _, values, -, -, rfl⟩ := printStatement_ok hok
    have hprint : StartsApart "Console.WriteLine(" :=
      ⟨'C', "onsole.WriteLine(".toList, rfl, by decide, by decide⟩
    exact single ((hprint.append _).append _).silent
  | returned hok =>
    cases hout
    rcases (returnStatement_ok hok).2 with ⟨-, rfl⟩ | ⟨_, _, _, code, -, -, rfl⟩
    · exact single (StartsApart.silent ⟨'r', "eturn;".toList, rfl, by decide, by decide⟩)
    · have hreturn : StartsApart "return " := ⟨'r', "eturn ".toList, rfl, by decide, by decide⟩
      exact single ((hreturn.append _).append _).silent
  | looped hok =>
    cases hout
    rcases loop_ok hok with hfor | ⟨hwhile, -⟩
    · obtain ⟨_, _, _, lo, hi, -, -, -, -, -, rfl⟩ := forLoop_ok hfor
      apply silent_headed
      iterate 10 apply StartsApart.append
      exact ⟨'f', "or (int ".toList, rfl, by decide, by decide⟩
    · obtain ⟨-, cond, rfl⟩ := whileLoop_ok hwhile
      have hloop : StartsApart "while (" := ⟨'w', "hile (".toList, rfl, by decide, by decide⟩
      exact silent_headed ((hloop.append _).append _)
  | checked hok =>
    cases hout
    obtain ⟨-, cond, rfl⟩ := ifStatement_ok hok
    have hcheck : StartsApart "if (" := ⟨'i', "f (".toList, rfl, by decide, by decide⟩
    exact silent_headed ((hcheck.append _).append _)

end

/-- An entry for a new name comes to stand in front of the table. -/
theorem functions_declareFunction {s : Scope} {f : Signature} (h : s.function? f.name = none) :
    (s.declareFunction f).functions = f :: s.functions := by
  unfold Scope.declareFunction
  rw [List.filter_eq_self.2]
  intro g hg
  have hne := List.find?_eq_none.1 h g hg
  simpa using hne

end Statement

namespace Step

open Target

section

variable {st : State} {text : String}

theorem functions_ofLine_statement (hne : text ≠ "\x7d") (st : State) :
    (ofLine st text).state.scope.functions =
      (perform (marked st text) text).1.state.scope.functions := by
  rw [ofLine_statement hne]
  generalize perform (marked st text) text = r
  dsimp only
  split
  · exact (Scope.functions_declareAll r.2 r.1.state.scope.push)
  · rfl

theorem functions_closing (st : State) :
    (ofLine st "\x7d").state.scope.functions = st.scope.functions := by
  cases hb : st.blocks with
  | nil => rw [ofLine_closing_nil hb]
  | cons b outer => rw [ofLine_closing_cons hb]; rfl

theorem methods_closing (st : State) : declaredMethods (ofLine st "\x7d").emitted = [] := by
  rw [emitted_closing]
  split
  · rfl
  · exact declaredMethods_silent (List.forall_mem_singleton.2 silent_closeBrace) _

/-- The functions that a line enters, at most one, and the methods that it declares. -/
structure Adds (st : State) (text : String) (new : List Signature) : Prop where
  functions : (ofLine st text).state.scope.functions = new ++ st.scope.functions
  methods : declaredMethods (ofLine st text).emitted = new.map (methodName ·.name)
  fresh : ∀ f ∈ new, st.scope.function? f.name = none
  single : new.length ≤ 1

theorem Adds.nothing (hf : (ofLine st text).state.scope.functions = st.scope.functions)
    (hm : declaredMethods (ofLine st text).emitted = []) : Adds st text [] :=
  ⟨hf, hm, by simp, by simp⟩

/-- An accepted header enters its function and declares its method. -/
theorem Accepts.adds_header (hacc : Accepts st text) {first : Token} {rest : List Token}
    (hl : Token.ofLine text = .ok (first :: rest)) (hlead : first.kind = .define) :
    ∃ f, Adds st text [f] := by
  have hne := ne_closing_of_define hl hlead
  obtain ⟨h, hh, hnew, -, hemitted⟩ := hacc.header hl hlead
  let list := params st.scope.enterFunction true h.paramTokens
  let f : Signature := ⟨h.name, h.result, list.params⟩
  have hno : st.scope.isFunction h.name = false := Scope.isFunction_eq_false_iff.2 hnew
  have hscope : (definition (marked st text) (first :: rest)).1.scope =
      list.scope.declareFunction f := by
    simp only [definition, hh, marked_scope, hno, Bool.false_eq_true, ↓reduceIte]
    split
    · rfl
    · split <;> rfl
  have hkept : list.scope.functions = st.scope.functions := functions_params _ _ _
  have hfresh : list.scope.function? f.name = none := by
    rw [Scope.function?, hkept]
    exact hnew
  refine ⟨f, ?_, ?_, by simpa using hnew, by simp⟩
  · rw [functions_ofLine_statement hne, (perform_define _ hl hlead).1, hscope,
      functions_declareFunction hfresh, hkept]
    rfl
  · obtain ⟨_, _, nameToken, _, _, _, htokens, -, hkind, -, -, -, hname, -⟩ :=
      functionHeader_iff.1 hh
    have hvalid := Token.valid_of_ofLine hl nameToken (by rw [htokens]; simp)
    have hparen : '(' ∉ (methodName f.name).toList := by
      intro hmem
      have hword := word_methodName (word_of_identifier hvalid hkind)
      rw [← hname] at hword
      exact absurd (hword '(' hmem) (by decide)
    have hbrace := declaredMethods_silent (List.forall_mem_singleton.2 silent_openBrace) st.indent
    rw [hemitted, State.indented, headed, List.map_cons, declaredMethods, List.filterMap_cons,
      declaredMethod?_methodHead hparen]
    exact congrArg (methodName f.name :: ·) hbrace

/-- An accepted line declares a method for each function that it enters. -/
theorem Accepts.adds (hacc : Accepts st text) : ∃ new, Adds st text new := by
  by_cases hne : text = "\x7d"
  · subst hne
    exact ⟨[], .nothing (functions_closing st) (methods_closing st)⟩
  cases hl : Token.ofLine text with
  | error l =>
    rw [accepts_iff hne, perform, hl] at hacc
    cases hacc
  | ok tokens =>
    cases tokens with
    | nil =>
      have hperform : perform (marked st text) text = ({ state := marked st text }, []) := by
        rw [perform, hl]
      refine ⟨[], .nothing ?_ ?_⟩
      · rw [functions_ofLine_statement hne, hperform, marked_scope]
      · rw [ofLine_statement hne, hperform]
        rfl
    | cons first rest =>
      by_cases hk : first.kind = .define
      · obtain ⟨f, hf⟩ := hacc.adds_header hl hk
        exact ⟨[f], hf⟩
      · obtain ⟨st', o, info, hp, hperform⟩ := hacc.performed hne hl
        refine ⟨[], .nothing ?_ ?_⟩
        · rw [functions_ofLine_statement hne, hperform, (hp.functions hk).1, marked_scope]
        · rw [ofLine_statement hne, hperform]
          exact declaredMethods_silent (hp.silent (Token.sound_of_ofLine hl) hk) st.indent

end

end Step

/-! ## Whole programs -/

namespace Run

open Target

variable {program : List String}

/-- Without a diagnostic, the methods that have been declared are those of the functions of the
table, in the order in which they were entered, and no function has been entered twice. -/
theorem methods_before (hclean : (ofLines program).diagnostics = []) (n : Nat) :
    declaredMethods (codeBefore program n) =
        (before program n).scope.functions.reverse.map (methodName ·.name) ∧
      ((before program n).scope.functions.map (·.name)).Nodup := by
  induction n with
  | zero => exact ⟨rfl, List.nodup_nil⟩
  | succ n ih =>
    cases hn : program[n]? with
    | none =>
      have hcode : codeBefore program (n + 1) = codeBefore program n := by
        rw [codeBefore, codeBefore, List.take_add_one, hn, Option.toList_none, List.append_nil]
      rw [hcode, before_of_getElem?_none hn]
      exact ih
    | some text =>
      obtain ⟨new, hadds⟩ := (accepts_of_clean hclean hn).adds
      rw [codeBefore_succ hn, before_succ hn, declaredMethods_append, ih.1, hadds.methods,
        hadds.functions]
      have hfresh := hadds.fresh
      have hsingle := hadds.single
      rcases new with _ | ⟨f, _ | ⟨_, _⟩⟩
      · exact ⟨by simp, ih.2⟩
      · refine ⟨by simp, List.nodup_cons.2 ⟨fun hmem => ?_, ih.2⟩⟩
        obtain ⟨g, hg, hname⟩ := List.mem_map.1 hmem
        have hnone := List.find?_eq_none.1 (hfresh f List.mem_cons_self) g hg
        exact hnone (by simpa using hname)
      · simp at hsingle

/-- Without a diagnostic, the table holds the functions that have a header. -/
theorem function_iff_heads (hclean : (ofLines program).diagnostics = []) (name : String) :
    (before program program.length).scope.function? name ≠ none ↔ ∃ m, Heads program m name := by
  constructor
  · intro hne
    obtain ⟨f, hf⟩ := Option.ne_none_iff_exists'.1 hne
    obtain ⟨m, -, rfl, text, htext, hheads, -⟩ := exists_enters hf
    exact ⟨m, text, htext, hheads⟩
  · rintro ⟨m, text, htext, hheads⟩
    obtain ⟨f, rfl, henters⟩ := (accepts_of_clean hclean htext).enters hheads
    have hentry := henters.2.2
    rw [← before_succ htext] at hentry
    have hm : m + 1 ≤ program.length := (List.getElem?_eq_some_iff.1 htext).1
    rw [entry_before hm hentry]
    exact Option.some_ne_none f

end Run

/-- A program against which nothing is told declares one method for each of its functions: their
names are all different and are those of the headers of the program, `main` among them. The methods
have the names of the functions, `main` being called `Main`. So all methods have different names
exactly when no function is called `Main`. -/
theorem declared_methods (input : List String)
    (hclean : (Run.ofLines (solidLines input)).diagnostics = []) :
    let program := solidLines input
    let names := (Run.before program program.length).scope.functions.reverse.map (·.name)
    let methods := Target.declaredMethods (Run.ofLines program).body
    names.Nodup ∧ (∀ name, name ∈ names ↔ ∃ m, Run.Heads program m name) ∧ "main" ∈ names ∧
      methods = names.map Target.methodName ∧ (methods.Nodup ↔ "Main" ∉ names) := by
  intro program names methods
  obtain ⟨hmethods, hnodup⟩ := Run.methods_before hclean program.length
  rw [← Run.body_eq_codeBefore] at hmethods
  have hdistinct : names.Nodup := by
    rw [show names = _ from List.map_reverse, List.nodup_reverse]
    exact hnodup
  have hmem : ∀ name, name ∈ names ↔
      (Run.before program program.length).scope.function? name ≠ none := by
    intro name
    rw [Scope.function?, ne_eq, List.find?_eq_none]
    simp [names]
  have hsucceeded : (Run.ofLines program).succeeded = true := by
    rw [Run.succeeded, hclean]
    rfl
  have hmain : "main" ∈ names := by
    obtain ⟨f, hf, -⟩ :=
      (State.hasEntryPoint_iff _).1 ((Run.succeeded_ofLines program).1 hsucceeded).2
    rw [hmem, hf]
    exact Option.some_ne_none f
  have hnames : methods = names.map Target.methodName := by
    rw [List.map_map]
    exact hmethods
  refine ⟨hdistinct, fun name => (hmem name).trans (Run.function_iff_heads hclean name), hmain,
    hnames, ?_⟩
  rw [hnames, Target.nodup_map_methodName hdistinct]
  simp [hmain]

/-- A function beside `main`. -/
theorem declared_methods_sample :
    let input := ["please define function void f(text s) \x7b", "\x7d",
      "  please define function void main() \x7b", "\x7d"]
    (Run.ofLines (solidLines input)).diagnostics = [] ∧
      let program := solidLines input
      let names := (Run.before program program.length).scope.functions.reverse.map (·.name)
      let methods := Target.declaredMethods (Run.ofLines program).body
      names.Nodup ∧ (∀ name, name ∈ names ↔ ∃ m, Run.Heads program m name) ∧ "main" ∈ names ∧
        methods = names.map Target.methodName ∧ (methods.Nodup ↔ "Main" ∉ names) := by
  intro input
  have hclean : (Run.ofLines (solidLines input)).diagnostics = [] := by decide +kernel
  exact ⟨hclean, declared_methods input hclean⟩

/-- Two functions whose methods have one name. -/
theorem methods_clash :
    let program := ["please define function void main() \x7b", "\x7d",
      "please define function void Main() \x7b", "\x7d"]
    (Run.ofLines program).diagnostics = [] ∧
      Target.declaredMethods (Run.ofLines program).body = ["Main", "Main"] := by
  decide +kernel

end Courtesy
