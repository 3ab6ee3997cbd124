import Courtesy.Proofs.Expressions
import Courtesy.Proofs.Recognisers
import Courtesy.Proofs.Scopes

/-!
# Uses of a variable

A variable that is used as a value is emitted under its own name, unless that name reads as an
operator: it is one of the operator words, or it starts with one that runs into a digit
(`variable_emitted`). A line is cut at its words, an expression also behind an operator word, and
this is where the two disagree.
-/

namespace Courtesy

open Text Statement

/-! ## Words -/

section

variable {c : Char} {cs rest : List Char}

theorem takeWhile_word (hcs : ∀ d ∈ cs, isWordChar d = true)
    (hrest : Lexeme.atWordEnd rest = true) : (cs ++ rest).takeWhile isWordChar = cs := by
  rw [List.takeWhile_append_of_pos hcs]
  cases rest with
  | nil => simp
  | cons d rest =>
    have hd : isWordChar d = false := by simpa [Lexeme.atWordEnd] using hrest
    rw [List.takeWhile_cons_of_neg (by simp [hd]), List.append_nil]

theorem wordLength?_word (hc : isWordStart c = true) (hcs : ∀ d ∈ cs, isWordChar d = true)
    (hrest : Lexeme.atWordEnd rest = true) :
    Lexeme.wordLength? (c :: (cs ++ rest)) = some (cs.length + 1) := by
  rw [Lexeme.wordLength?, if_pos hc, takeWhile_word hcs hrest]

theorem lengths_word (hc : isWordStart c = true) (cs : List Char) :
    Lexeme.numberLength? (c :: cs) = none ∧ Expression.numberLength? (c :: cs) = none ∧
      Lexeme.closedStringLength? (c :: cs) = none := by
  have hdigit := isDigit_of_isWordStart hc
  have hminus : c ≠ '-' := by
    rintro rfl
    cases hc
  have hquote : c ≠ '"' := by
    rintro rfl
    cases hc
  refine ⟨?_, ?_, ?_⟩
  · simp [Lexeme.numberLength?, Lexeme.digitCount, hminus, hdigit]
  · simp [Expression.numberLength?, Lexeme.digitCount, hminus, hdigit]
  · unfold Lexeme.closedStringLength?
    split
    · rename_i heq
      exact absurd (List.cons.inj heq).1 hquote
    · rfl

theorem atomsFrom_word (hc : isWordStart c = true) (hcs : ∀ d ∈ cs, isWordChar d = true)
    (hrest : Lexeme.atWordEnd rest = true) :
    Expression.atomsFrom 0 (c :: (cs ++ rest)) = (c :: cs) :: Expression.atomsFrom 0 rest := by
  obtain ⟨-, hnumber, hstring⟩ := lengths_word hc (cs ++ rest)
  have hlength : Expression.atomLength? (c :: (cs ++ rest)) = some (cs.length + 1) := by
    rw [Expression.atomLength?, hnumber, hstring, wordLength?_word hc hcs hrest]
    rfl
  rw [Expression.atomsFrom, hlength]
  dsimp only
  rw [Expression.atomsFrom_skip, List.drop_left, List.take_succ_cons, List.take_left]

/-- A word is a lexeme, where no phrase starts with it. -/
theorem tokenize_word (hc : isWordStart c = true) (hcs : ∀ d ∈ cs, isWordChar d = true)
    (hrest : Lexeme.atWordEnd rest = true)
    (hphrase : Lexeme.anyPhraseLength? (c :: (cs ++ rest)) = none) {text : String}
    (htext : text.toList = c :: (cs ++ rest)) :
    ∃ offset, tokenize text =
      String.ofList (c :: cs) :: (Lexeme.scanFrom 0 offset rest).map (·.text) := by
  obtain ⟨hnumber, -, hstring⟩ := lengths_word hc (cs ++ rest)
  have hlength : Lexeme.lexemeLength? (c :: (cs ++ rest)) = some (cs.length + 1) := by
    rw [Lexeme.lexemeLength?, hphrase, hstring, hnumber, wordLength?_word hc hcs hrest]
    rfl
  have hword : ∀ d ∈ c :: cs, isWordChar d = true :=
    List.forall_mem_cons.2 ⟨isWordChar_of_isWordStart hc, hcs⟩
  have hgap := isGap_of_isWordChar (hword c List.mem_cons_self)
  obtain ⟨offset, hskip⟩ :=
    Lexeme.scanFrom_skip cs.length (0 + c.utf8Size) (cs ++ rest)
  refine ⟨offset, ?_⟩
  rw [tokenize, Lexeme.scan, htext, Lexeme.scanFrom, hgap,
    if_neg Bool.false_ne_true, hlength]
  dsimp only
  rw [List.map_cons, hskip, List.drop_left, List.take_succ_cons, List.take_left,
    Lexeme.normalise_solid fun d hd => Lexeme.isStop_of_isWordChar (hword d hd)]

end

theorem anyPhraseLength?_of_no_space {cs : List Char} (h : ∀ d ∈ cs, isPhraseSpace d = false) :
    Lexeme.anyPhraseLength? cs = none := by
  -- a phrase has a second word, and there is no gap in front of it
  have hlong : ∀ p ∈ Vocabulary.phrases, 2 ≤ p.length := by decide
  rw [Lexeme.anyPhraseLength?, List.findSome?_eq_none_iff]
  intro p hp
  match p, hlong p hp with
  | first :: second :: more, _ =>
    have hgap : ((cs.drop first.toList.length).takeWhile isPhraseSpace).length = 0 := by
      cases hdrop : cs.drop first.toList.length with
      | nil => rfl
      | cons d ds =>
        have hd : d ∈ cs := List.mem_of_mem_drop (hdrop ▸ List.mem_cons_self)
        rw [List.takeWhile_cons_of_neg (by simp [h d hd])]
        rfl
    rw [List.map_cons, List.map_cons, Lexeme.phraseLength?]
    · dsimp only
      rw [hgap, if_pos rfl, ite_self]
    · rintro ⟨⟩

/-! ## Names that read as operators -/

namespace Expression

/-- The name is an operator word, or starts with one that runs into a digit. -/
def readsAsOperator (name : String) : Bool :=
  match name.toList with
  | a :: b :: c :: rest => isOperatorWord [a, b, c] && rest.head?.all Char.isDigit
  | _ => false

theorem readsAsOperator_iff {name : String} : readsAsOperator name = true ↔
    ∃ a b c rest, name.toList = a :: b :: c :: rest ∧ isOperatorWord [a, b, c] = true ∧
      rest.head?.all Char.isDigit = true := by
  constructor
  · intro h
    unfold readsAsOperator at h
    split at h
    · rename_i a b c rest hname
      exact ⟨a, b, c, rest, hname, Bool.and_eq_true_iff.1 h⟩
    · cases h
  · rintro ⟨a, b, c, rest, hname, h⟩
    rw [readsAsOperator, hname]
    exact Bool.and_eq_true_iff.2 h

/-- An operator word is split off the front of a name that reads as an operator. -/
theorem cut_of_readsAsOperator {name : String} (h : readsAsOperator name = true) :
    ∃ a b c more, isOperatorWord [a, b, c] = true ∧
      cut name = String.ofList [a, b, c] :: more := by
  obtain ⟨a, b, c, rest, hname, hword, hdigit⟩ := readsAsOperator_iff.1 h
  have hstart : isWordStart a = true := by
    simp only [isOperatorWord, Bool.or_eq_true, beq_iff_eq, List.cons.injEq] at hword
    rcases hword with ((⟨rfl, -⟩ | ⟨rfl, -⟩) | ⟨rfl, -⟩) | ⟨rfl, -⟩ <;> rfl
  have htail : ∀ d ∈ [b, c], isWordChar d = true := fun d hd =>
    isWordChar_of_isOperatorWord hword d (List.mem_cons_of_mem a hd)
  obtain ⟨rest', hspaced, hend⟩ : ∃ rest', respace false name.toList = a :: ([b, c] ++ rest') ∧
      Lexeme.atWordEnd rest' = true := by
    rw [hname]
    cases rest with
    | nil => exact ⟨[], by simp [respace], rfl⟩
    | cons d rest => exact ⟨_, respace_glued hword (by simpa using hdigit), rfl⟩
  refine ⟨a, b, c, (atomsFrom 0 rest').map String.ofList, hword, ?_⟩
  rw [cut, hspaced, atomsFrom_word hstart htail hend, List.map_cons]

/-- Inside a word nothing is parted. -/
theorem respace_word {cs : List Char} (h : ∀ d ∈ cs, isWordChar d = true) :
    respace true cs = cs := by
  induction cs with
  | nil => simp [respace]
  | cons d cs ih =>
    obtain ⟨hd, hcs⟩ := List.forall_mem_cons.1 h
    rw [respace_cons (.inl rfl), hd, ih hcs]

theorem cut_of_identifier {name : String} (hname : Literal.isIdentifier name = true)
    (h : readsAsOperator name = false) : cut name = [name] := by
  obtain ⟨c, cs, hcs, hc, hall⟩ := Literal.chars_of_isIdentifier hname
  have hglued : glued (c :: cs) = false := by
    cases hg : glued (c :: cs) with
    | false => rfl
    | true =>
      obtain ⟨a, b, c, d, rest, heq, hword, hd⟩ := glued_iff.1 hg
      have : readsAsOperator name = true :=
        readsAsOperator_iff.2 ⟨a, b, c, d :: rest, hcs.trans heq, hword, hd⟩
      rw [h] at this
      cases this
  have hatoms : atomsFrom 0 (c :: (cs ++ [])) = [c :: cs] := atomsFrom_word hc hall rfl
  rw [List.append_nil] at hatoms
  rw [cut, hcs, respace_cons (.inr hglued), isWordChar_of_isWordStart hc, respace_word hall, hatoms,
    ← hcs, List.map_singleton, String.ofList_toList]

theorem isArithmetic_eq_false {name : String} (h : readsAsOperator name = false) :
    Vocabulary.isArithmetic name = false := by
  have hall : ∀ p ∈ Vocabulary.arithmetic, readsAsOperator p.1 = true := by decide
  cases ha : Vocabulary.isArithmetic name with
  | false => rfl
  | true =>
    obtain ⟨op, hop⟩ := Option.isSome_iff_exists.1 ha
    rw [hall (name, op) (mem_of_lookup hop)] at h
    cases h

theorem role?_identifier {name : String} (hname : Identified name)
    (h : Vocabulary.isArithmetic name = false) : role? name = some .var := by
  have hidentifier := hname.isIdentifier
  unfold role?
  rw [hname.isNumber, hname.isString, hname.isBoolean]
  simp only [Bool.false_eq_true, ↓reduceIte]
  -- the name is neither an operator word nor a parenthesis
  split
  · exact absurd h (by decide)
  · exact absurd h (by decide)
  · exact absurd h (by decide)
  · exact absurd h (by decide)
  · exact absurd hidentifier (by decide)
  · exact absurd hidentifier (by decide)
  · rw [if_pos hidentifier]

theorem check_variable {vars : Variables} {x : String} {t : ValueType}
    (hx : vars.lookup x = some t) (hname : Identified x) (htype : isValueType t = true)
    (h : readsAsOperator x = false) : check vars x t = .ok ⟨[x], false⟩ := by
  have harithmetic := isArithmetic_eq_false h
  have hsub : (x == "sub") = false := by
    rw [beq_eq_false_iff_ne]
    rintro rfl
    exact absurd harithmetic (by decide)
  have hcompatible : t.compatible t = true := by
    rw [ValueType.compatible_self]
    rintro rfl
    cases htype
  have hpass : pass vars t 0 .var x = .ok ⟨true, false⟩ := by
    have hnarrows : (decide (t = .decimal) && decide (t = .integer)) = false := by
      cases t <;> rfl
    simp only [pass, hx, admitVariable, hcompatible, ↓reduceIte, hnarrows]
    rfl
  have hgate : gate vars t none 0 [x] = .ok ([⟨.var, x⟩], false) := by
    rw [gate, hsub, Bool.false_and, if_neg Bool.false_ne_true, role?_identifier hname harithmetic]
    dsimp only
    rw [hpass]
    rfl
  have hfinish : finish t [⟨.var, x⟩] = .ok () := by
    cases t <;> rfl
  rw [check, htype, cut_of_identifier hname.isIdentifier h]
  dsimp only
  rw [Bool.not_true, if_neg Bool.false_ne_true, List.isEmpty_cons, if_neg Bool.false_ne_true, hgate]
  change (do accept [⟨.var, x⟩]; finish t [⟨.var, x⟩]; return (⟨[x], false⟩ : Expression)) = _
  rw [hfinish]
  rfl

end Expression

/-! ## Lowering -/

namespace Target

/-- An operator word in front is lowered to its operator. -/
theorem lower_operatorWord {a b c : Char} (h : Expression.isOperatorWord [a, b, c] = true)
    (more : List String) :
    ∃ d tail, (lower (spaced (String.ofList [a, b, c] :: more))).toList = d :: tail ∧
      isWordStart d = false := by
  have htext := toList_spaced (String.ofList [a, b, c]) more
  rw [String.toList_ofList] at htext
  have hend : Lexeme.atWordEnd (joinedTail more) = true := by cases more <;> rfl
  have hword : ∀ d ∈ [b, c], isWordChar d = true := fun d hd =>
    Expression.isWordChar_of_isOperatorWord h d (List.mem_cons_of_mem a hd)
  -- no phrase starts with an operator word, and each of the words has its operator
  have hfacts :
      isWordStart a = true ∧ Lexeme.anyPhraseLength? (a :: ([b, c] ++ joinedTail more)) = none ∧
      ∃ d, symbol (String.ofList [a, b, c]) = String.ofList [d] ∧ isWordStart d = false := by
    simp only [Expression.isOperatorWord, Bool.or_eq_true, beq_iff_eq, List.cons.injEq] at h
    rcases h with ((⟨rfl, rfl, rfl, -⟩ | ⟨rfl, rfl, rfl, -⟩) | ⟨rfl, rfl, rfl, -⟩) |
      ⟨rfl, rfl, rfl, -⟩
    · exact ⟨rfl, rfl, '+', rfl, rfl⟩
    · exact ⟨rfl, rfl, '-', rfl, rfl⟩
    · exact ⟨rfl, rfl, '*', rfl, rfl⟩
    · exact ⟨rfl, rfl, '/', rfl, rfl⟩
  obtain ⟨hstart, hphrase, d, hsymbol, hd⟩ := hfacts
  obtain ⟨offset, htokens⟩ := tokenize_word hstart hword hend hphrase htext
  rw [lower, htokens, List.map_cons, hsymbol]
  exact ⟨d, _, (toList_spaced ..).trans (by rw [String.toList_ofList]; rfl), hd⟩

theorem lower_identifier {name : String} (hname : Identified name)
    (h : Vocabulary.isArithmetic name = false) : lower name = name := by
  obtain ⟨c, cs, hcs, hc, hall⟩ := Literal.chars_of_isIdentifier hname.isIdentifier
  have hword : ∀ d ∈ c :: cs, isWordChar d = true :=
    List.forall_mem_cons.2 ⟨isWordChar_of_isWordStart hc, hall⟩
  have hphrase : Lexeme.anyPhraseLength? (c :: (cs ++ [])) = none := by
    rw [List.append_nil]
    refine anyPhraseLength?_of_no_space fun d hd => ?_
    have hgap := isGap_of_isWordChar (hword d hd)
    exact (Bool.or_eq_false_iff.1 hgap).1
  obtain ⟨offset, htokens⟩ := tokenize_word hc hall rfl hphrase (by rw [List.append_nil, hcs])
  have hsymbol : symbol name = name := by
    have harithmetic : Vocabulary.arithmetic.lookup name = none := by
      simpa [Vocabulary.isArithmetic] using h
    have hcomparison : Vocabulary.comparisons.lookup name = none := by
      simpa [Vocabulary.isRelational] using hname.isRelational
    simp only [symbol, harithmetic, hcomparison, Option.getD_none]
  rw [lower, htokens, ← hcs, String.ofList_toList]
  simp [Lexeme.scanFrom, spaced, hsymbol]

end Target

/-! ## Values -/

theorem Token.join_singleton (t : Token) : join [t] = t.text := by
  simp [join, texts, spaced]

namespace Statement

/-- Code that comes from an operator word is no name. -/
theorem value_ne_of_readsAsOperator {scope : Scope} {place : Place} {x : String} {t : ValueType}
    (hname : Identified x) (h : Expression.readsAsOperator x = true) :
    value scope place x t ≠ .ok x := by
  intro hvalue
  obtain ⟨e, hcheck, hcode⟩ := value_ok hvalue
  obtain ⟨a, b, c, more, hword, hcut⟩ := Expression.cut_of_readsAsOperator h
  have htext : e.text = spaced (String.ofList [a, b, c] :: more) := by
    rw [Expression.text, (Expression.check_accepted hcheck).1, hcut]
  obtain ⟨d, tail, hlower, hd⟩ := Target.lower_operatorWord hword more
  obtain ⟨first, cs, hcs, hfirst, -⟩ := Literal.chars_of_isIdentifier hname.isIdentifier
  rw [htext] at hcode
  rcases hcode with hcode | hcode
  · rw [hcode, hlower] at hcs
    cases hcs
    rw [hd] at hfirst
    cases hfirst
  · rw [hcode, narrowed, String.toList_append, String.toList_append] at hcs
    cases hcs
    cases hfirst

/-- A variable where its own type is expected is emitted under its name, exactly when that name
does not read as an operator. -/
theorem value_variable_iff {scope : Scope} {x : String} {t : ValueType}
    (hx : scope.visible.lookup x = some t) (hname : Identified x)
    (htype : Expression.isValueType t = true) (place : Place) :
    value scope place x t = .ok x ↔ Expression.readsAsOperator x = false := by
  constructor
  · intro hvalue
    cases h : Expression.readsAsOperator x with
    | false => rfl
    | true => exact absurd hvalue (value_ne_of_readsAsOperator hname h)
  · intro h
    have htext : (⟨[x], false⟩ : Expression).text = x := by simp [Expression.text, spaced]
    have hlower := Target.lower_identifier hname (Expression.isArithmetic_eq_false h)
    rw [value, Expression.check_variable hx hname htype h]
    dsimp only
    rw [htext, hlower]
    rfl

theorem valueOrCall_identifier {v : Token} (hk : v.kind = .identifier) (scope : Scope)
    (place : Place) (receiver : Receiver) (expected : ValueType) :
    valueOrCall scope place receiver expected v [] = value scope place v.text expected := by
  rw [valueOrCall, hk, if_neg (by decide), Token.join_singleton]

end Statement

/-! ## Statements -/

namespace Step

section

variable {st : State} {text x : String} {t : ValueType}

theorem emitted_assignment {y : String} (hreads : Line.Reads [y, "equals", x] text)
    (hy : classify y = .identifier) (hx : classify x = .identifier)
    (hfunction : st.scope.isFunction y = false) (hlookup : st.scope.lookup? y = some t)
    (hvalue : value st.scope .assigned x t = .ok x) :
    (ofLine st text).emitted = st.indented [y ++ " = " ++ x ++ ";"] := by
  obtain ⟨tokens, hl, htexts⟩ := hreads
  simp only [Token.texts, List.map_eq_cons_iff, List.map_eq_nil_iff] at htexts
  obtain ⟨target, _, rfl, rfl, eq, _, rfl, heq, source, _, rfl, rfl, rfl⟩ := htexts
  have hkind : ∀ t ∈ [target, eq, source], t.kind = classify t.text :=
    fun t ht => (Token.valid_of_ofLine hl t ht).1
  simp only [List.forall_mem_cons, hy, hx, heq] at hkind
  obtain ⟨ktarget, keq, ksource, -⟩ := hkind
  have keq : eq.kind = .equals := keq
  have hassign : assignment st.scope [target, eq, source] =
      .ok (target.text ++ " = " ++ source.text ++ ";") := by
    simp only [assignment, hfunction, Bool.false_eq_true, ↓reduceIte, hlookup, keq, ne_eq,
      not_true_eq_false, valueOrCall_identifier ksource, hvalue]
    rfl
  have hperform : Statement.perform (marked st text) target.kind [target, eq, source] =
      some ⟨marked st text, .ok { code := [target.text ++ " = " ++ source.text ++ ";"] }⟩ := by
    rw [ktarget]
    simp only [Statement.perform, marked_scope, hassign, Outcome.ofLine]
  exact emitted_of_perform hl hperform

theorem emitted_return {f : Signature} (hreads : Line.Reads ["thank you for returning", x] text)
    (hx : classify x = .identifier) (hfunction : st.function.bind st.scope.function? = some f)
    (hresult : f.result = t) (hvoid : t ≠ .void)
    (hvalue : value st.scope .returned x t = .ok x) :
    (ofLine st text).emitted = st.indented ["return " ++ x ++ ";"] := by
  obtain ⟨tokens, hl, htexts⟩ := hreads
  simp only [Token.texts, List.map_eq_cons_iff, List.map_eq_nil_iff] at htexts
  obtain ⟨lead, _, rfl, hlead, source, _, rfl, rfl, rfl⟩ := htexts
  have hkind : ∀ t ∈ [lead, source], t.kind = classify t.text :=
    fun t ht => (Token.valid_of_ofLine hl t ht).1
  simp only [List.forall_mem_cons, hx, hlead] at hkind
  obtain ⟨klead, ksource, -⟩ := hkind
  have klead : lead.kind = .giveBack := klead
  obtain ⟨name, hname, hf⟩ := Option.bind_eq_some_iff.1 hfunction
  have hreturn : ∃ st', returnStatement (marked st text) [lead, source] =
      .ok (st', "return " ++ source.text ++ ";") := by
    subst hresult
    unfold returnStatement
    rw [marked_function, hname]
    dsimp only
    rw [marked_scope, hf]
    dsimp only
    split
    · rename_i hno
      cases hno
    · rename_i hno _
      exact absurd hno hvoid
    · rename_i hno _
      cases hno
    · rename_i hsource _
      cases hsource
      rw [valueOrCall_identifier ksource, hvalue]
      exact ⟨_, rfl⟩
  obtain ⟨st', hreturn⟩ := hreturn
  have hperform : Statement.perform (marked st text) lead.kind [lead, source] =
      some ⟨st', .ok { code := ["return " ++ source.text ++ ";"] }⟩ := by
    rw [klead]
    simp only [Statement.perform, hreturn]
  exact emitted_of_perform hl hperform

theorem emitted_call {f : Signature} {p : Param} {name : String}
    (hreads : Line.Reads ["please call", name, "(", x, ")"] text)
    (hname : classify name = .identifier) (hx : classify x = .identifier)
    (hfunction : st.scope.function? name = some f) (hparams : f.params = [p])
    (hvalue : value st.scope (.argument p.name f.name) x p.type = .ok x) :
    (ofLine st text).emitted = st.indented [Target.methodName name ++ "(" ++ x ++ ");"] := by
  obtain ⟨tokens, hl, htexts⟩ := hreads
  simp only [Token.texts, List.map_eq_cons_iff, List.map_eq_nil_iff] at htexts
  obtain ⟨lead, _, rfl, hlead, callee, _, rfl, rfl, opening, _, rfl, hopening, source, _, rfl, rfl,
    closing, _, rfl, hclosing, rfl⟩ := htexts
  have hkind : ∀ t ∈ [lead, callee, opening, source, closing], t.kind = classify t.text :=
    fun t ht => (Token.valid_of_ofLine hl t ht).1
  simp only [List.forall_mem_cons, hx, hname, hlead, hopening, hclosing] at hkind
  obtain ⟨klead, kcallee, kopening, ksource, kclosing, -⟩ := hkind
  have hbody : callBody callee.text [opening, source, closing] = .ok [source] := by
    have kopening : opening.kind = .openParen := kopening
    have kclosing : closing.kind = .closeParen := kclosing
    simp [callBody, closing?, kopening, ksource, kclosing]
  have hargs : arguments? [source] = some [[source]] := by
    simp [arguments?, segments, consSegment, ksource]
  have hcodes : argumentCodes st.scope f [[source]] = .ok [source.text] := by
    simp only [argumentCodes, hparams, List.zip_cons_cons, List.zip_nil_right, List.mapM_cons,
      List.mapM_nil, Token.join_singleton, hvalue]
    rfl
  have hcall : call st.scope [callee, opening, source, closing] =
      .ok ⟨f, Target.methodName callee.text ++ "(" ++ source.text ++ ")"⟩ := by
    simp [call, kcallee, hfunction, hbody, bind, Except.bind, hargs, hparams, hcodes, pure,
      Except.pure]
  have hline : callStatement st.scope [lead, callee, opening, source, closing] =
      .ok (Target.methodName callee.text ++ "(" ++ source.text ++ ");") := by
    simp only [callStatement, List.drop_one, List.tail_cons, hcall, bind, Except.bind, pure,
      Except.pure]
    rw [String.append_assoc]
    rfl
  have hperform : Statement.perform (marked st text) lead.kind
      [lead, callee, opening, source, closing] = some ⟨marked st text,
        .ok { code := [Target.methodName callee.text ++ "(" ++ source.text ++ ");"] }⟩ := by
    have klead : lead.kind = .call := klead
    rw [klead]
    simp only [Statement.perform, marked_scope, hline, Outcome.ofLine]
  exact emitted_of_perform hl hperform

end

end Step

/-- Before any line of a program, a visible variable that is used as a value of its own type is
emitted under its name, exactly when that name does not read as an operator. Then so it is where the
variable is assigned, returned or passed on alone. -/
theorem variable_emitted {program : List String} {k : Nat} {x : String} {t : ValueType}
    (hx : (Run.before program k).scope.visible.lookup x = some t) :
    let st := Run.before program k
    (∀ place, value st.scope place x t = .ok x ↔ Expression.readsAsOperator x = false) ∧
    (Expression.readsAsOperator x = false → ∀ text,
      (∀ y, Line.Reads [y, "equals", x] text → st.scope.visible.lookup y = some t →
        st.scope.isFunction y = false →
        (Step.ofLine st text).emitted = st.indented [y ++ " = " ++ x ++ ";"]) ∧
      (∀ f, Line.Reads ["thank you for returning", x] text →
        st.function.bind st.scope.function? = some f → f.result = t →
        (Step.ofLine st text).emitted = st.indented ["return " ++ x ++ ";"]) ∧
      (∀ name f p, Line.Reads ["please call", name, "(", x, ")"] text →
        st.scope.function? name = some f → f.params = [p] → p.type = t →
        (Step.ofLine st text).emitted =
          st.indented [Target.methodName name ++ "(" ++ x ++ ");"])) := by
  intro st
  have hbuilt := Run.before_built program k
  have hnamed : ∀ {y}, st.scope.visible.lookup y = some t →
      classify y = .identifier ∧ Expression.isValueType t = true := by
    intro y hy
    exact hbuilt.named (hbuilt.distinct.lookup_visible.1 hy)
  obtain ⟨hname, htype⟩ := hnamed hx
  have hiff := value_variable_iff hx (identified_of_classify hname) htype
  refine ⟨hiff, fun h text => ⟨?_, ?_, ?_⟩⟩
  · intro y hreads hy hfunction
    have hlookup := (st.scope.lookup_visible y).symm.trans hy
    exact Step.emitted_assignment hreads (hnamed hy).1 hname hfunction hlookup ((hiff _).2 h)
  · intro f hreads hfunction hresult
    have hvoid : t ≠ .void := by
      rintro rfl
      cases htype
    exact Step.emitted_return hreads hname hfunction hresult hvoid ((hiff _).2 h)
  · rintro name f p hreads hfunction hparams rfl
    have hcallee := hbuilt.callable hfunction
    exact Step.emitted_call hreads hcallee hname hfunction hparams ((hiff _).2 h)

/-- An operator word that runs into a letter is part of a name. -/
theorem variable_emitted_addend :
    let st := Run.before ["please create integer addend"] 1
    value st.scope .initialValue "addend" .integer = .ok "addend" ∧
      (Step.ofLine st "addend equals addend").emitted = st.indented ["addend = addend;"] := by
  intro st
  obtain ⟨hx, hfunction, hreads⟩ : st.scope.visible.lookup "addend" = some .integer ∧
      st.scope.isFunction "addend" = false ∧
      Line.Reads ["addend", "equals", "addend"] "addend equals addend" := by
    decide +kernel
  have hno : Expression.readsAsOperator "addend" = false := by decide
  obtain ⟨hiff, hlines⟩ := variable_emitted hx
  exact ⟨(hiff _).2 hno, (hlines hno _).1 "addend" hreads hx hfunction⟩

/-- A variable whose name reads as an operator comes out as something else. -/
theorem variable_read_as_number :
    let st := Run.before ["please create integer add5"] 1
    st.scope.visible.lookup "add5" = some .integer ∧
      (value st.scope .initialValue "add5" .integer).toOption = some "+ 5" ∧
      (Step.ofLine st "please create integer y equals add5").emitted = ["int y = + 5;"] := by
  decide +kernel

end Courtesy
