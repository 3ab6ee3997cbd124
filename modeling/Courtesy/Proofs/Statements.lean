import Courtesy.Proofs.Tokens

/-!
# Accepted statements

For each statement, what is known when it is accepted: the shape of its tokens, the values that were
checked, and the line of code. Later proofs start from these and do not open the statements again.
-/

namespace Courtesy.Statement

/-! ## Values and calls -/

/-- The code is that of an expression that is accepted as a value of the type; a decimal that feeds
an integer is cast. -/
def Lowers (scope : Scope) (expr : String) (type : ValueType) (code : String) : Prop :=
  ∃ e, Expression.check scope.visible expr type = .ok e ∧
    code = if e.narrowing then narrowed (Target.lower e.text) else Target.lower e.text

variable {scope : Scope} {place : Place} {code line : String} {expected : ValueType}
  {tokens inner : List Token} {args : List (List Token)} {st : State} {header : Header}
  {start : Nat} {o : Opening}

theorem value_lowers {expr : String} (h : value scope place expr expected = .ok code) :
    Lowers scope expr expected code := by
  unfold value at h
  split at h
  · cases h
  · rename_i e he
    cases h
    exact ⟨e, he, rfl⟩

theorem value_ok {expr : String} (h : value scope place expr expected = .ok code) :
    ∃ e, Expression.check scope.visible expr expected = .ok e ∧
      (code = Target.lower e.text ∨ code = narrowed (Target.lower e.text)) := by
  obtain ⟨e, he, rfl⟩ := value_lowers h
  refine ⟨e, he, ?_⟩
  split
  · exact .inr rfl
  · exact .inl rfl

theorem closing?_some {depth c : Nat} (h : closing? depth tokens = some c) :
    ∃ t, tokens[c]? = some t ∧ t.kind = .closeParen := by
  induction tokens generalizing depth c with
  | nil => cases h
  | cons t ts ih =>
    rw [closing?] at h
    split at h
    · obtain ⟨n, hn, rfl⟩ := Option.map_eq_some_iff.1 h
      exact ih hn
    · rename_i hk
      split at h
      · cases h
        exact ⟨t, rfl, hk⟩
      · obtain ⟨n, hn, rfl⟩ := Option.map_eq_some_iff.1 h
        exact ih hn
    · obtain ⟨n, hn, rfl⟩ := Option.map_eq_some_iff.1 h
      exact ih hn

/-- The tokens of a call behind the name: a parenthesis, the arguments, a parenthesis. -/
theorem callBody_ok {name : String} {body : List Token} (h : callBody name tokens = .ok body) :
    ∃ opening closing, tokens = opening :: body ++ [closing] ∧ opening.kind = .openParen ∧
      closing.kind = .closeParen := by
  unfold callBody at h
  split at h
  · cases h
  · rename_i t ts
    split at h
    · cases h
    · rename_i ht
      split at h
      · cases h
      · rename_i c hc
        split at h
        · rename_i hdrop
          cases h
          obtain ⟨u, hu, hku⟩ := closing?_some hc
          have hkt : t.kind = .openParen := by simpa using ht
          cases c with
          | zero =>
            cases hu
            rw [hkt] at hku
            cases hku
          | succ c =>
            refine ⟨t, u, ?_, hkt, hku⟩
            have hlast : (t :: ts).drop (c + 1) = [u] := by
              rw [List.drop_eq_getElem?_toList_append, hu, hdrop]
              rfl
            rw [List.drop_succ_cons] at hlast
            rw [List.take_succ_cons, List.drop_one, List.tail_cons, List.cons_append, ← hlast,
              List.take_append_drop]
        · cases h

theorem flatten_consSegment (t : Token) (ss : List (List Token)) :
    (consSegment t ss).flatten = t :: ss.flatten := by
  cases ss <;> rfl

/-- Cutting at commas loses nothing but commas, whatever is read off the tokens. -/
theorem flatMap_segments {α : Type} {f : Token → List α}
    (hf : ∀ t ∈ tokens, t.kind = .comma → f t = []) (depth : Int) :
    (segments depth tokens).flatten.flatMap f = tokens.flatMap f := by
  induction tokens generalizing depth with
  | nil => rfl
  | cons t ts ih =>
    have ih := ih fun u hu => hf u (List.mem_cons_of_mem t hu)
    rw [segments]
    split
    · rename_i h
      rw [List.flatten_cons, List.nil_append, ih, List.flatMap_cons, hf t List.mem_cons_self h.1,
        List.nil_append]
    · rw [flatten_consSegment, List.flatMap_cons, ih, List.flatMap_cons]

theorem arguments?_eq_some_iff :
    arguments? tokens = some args ↔
      (tokens = [] ∧ args = []) ∨
        (tokens ≠ [] ∧ [] ∉ segments 0 tokens ∧ args = segments 0 tokens) := by
  have hany : (segments 0 tokens).any List.isEmpty = true ↔ [] ∈ segments 0 tokens := by
    simp
  unfold arguments?
  dsimp only
  by_cases hnil : tokens = []
  · rw [if_pos (List.isEmpty_iff.2 hnil), Option.some.injEq, eq_comm]
    simp [hnil]
  · rw [if_neg (mt List.isEmpty_iff.1 hnil)]
    by_cases hmem : [] ∈ segments 0 tokens
    · rw [if_pos (hany.2 hmem)]
      simp [hnil, hmem]
    · rw [if_neg (mt hany.1 hmem), Option.some.injEq, eq_comm]
      simp [hnil, hmem]

theorem flatMap_arguments? {α : Type} {f : Token → List α}
    (hf : ∀ t ∈ tokens, t.kind = .comma → f t = []) (h : arguments? tokens = some args) :
    args.flatten.flatMap f = tokens.flatMap f := by
  rcases arguments?_eq_some_iff.1 h with ⟨rfl, rfl⟩ | ⟨-, -, rfl⟩
  · rfl
  · exact flatMap_segments hf 0

theorem segments_sublist (depth : Int) (tokens : List Token) :
    (segments depth tokens).flatten.Sublist tokens := by
  induction tokens generalizing depth with
  | nil => exact .slnil
  | cons t ts ih =>
    rw [segments]
    split
    · exact (ih depth).cons t
    · rw [flatten_consSegment]
      exact (ih _).cons_cons t

theorem arguments?_sublist (h : arguments? tokens = some args) : args.flatten.Sublist tokens := by
  rcases arguments?_eq_some_iff.1 h with ⟨rfl, rfl⟩ | ⟨-, -, rfl⟩
  · exact .slnil
  · exact segments_sublist 0 tokens

theorem call_ok {c : Call} (h : call scope tokens = .ok c) :
    ∃ nameToken opening body closing args codes,
      tokens = nameToken :: opening :: body ++ [closing] ∧
      nameToken.kind = .identifier ∧ opening.kind = .openParen ∧ closing.kind = .closeParen ∧
      scope.function? nameToken.text = some c.callee ∧
      arguments? body = some args ∧ args.length = c.callee.params.length ∧
      argumentCodes scope c.callee args = .ok codes ∧
      c.code = Target.methodName nameToken.text ++ "(" ++ ", ".intercalate codes ++ ")" := by
  unfold call at h
  split at h
  · cases h
  · rename_i nameToken rest
    dsimp only at h
    split at h
    · cases h
    · rename_i hkind
      split at h
      · cases h
      · rename_i f hf
        obtain ⟨body, hbody, h⟩ := except_bind_ok.1 h
        obtain ⟨opening, closing, hrest, ho, hc⟩ := callBody_ok hbody
        split at h
        · cases h
        · rename_i args hargs
          split at h
          · cases h
          · rename_i hlen
            obtain ⟨codes, hcodes, h⟩ := except_bind_ok.1 h
            cases h
            subst hrest
            exact ⟨nameToken, opening, body, closing, args, codes, rfl, by simpa using hkind, ho,
              hc, hf, hargs, by simpa using hlen, hcodes, rfl⟩

/-- A call that is used as a value has a result that can be used so. -/
theorem callValue_ok {receiver : Receiver}
    (h : callValue scope receiver expected tokens = .ok code) :
    ∃ c, call scope tokens = .ok c ∧ c.callee.result ≠ .void ∧
      c.callee.result.compatible expected = true ∧
      code = (if c.callee.result = .decimal && expected = .integer then "(int)" else "") ++
        c.code := by
  unfold callValue at h
  obtain ⟨c, hc, h⟩ := except_bind_ok.1 h
  dsimp only at h
  split at h
  · split at h <;> cases h
  · rename_i hvoid
    split at h
    · split at h <;> cases h
    · rename_i hcompatible
      refine ⟨c, hc, hvoid, by simpa using hcompatible, ?_⟩
      split at h
      · rename_i hcast
        cases h
        rw [if_pos hcast]
      · rename_i hcast
        cases h
        rw [if_neg hcast, String.empty_append]

theorem valueOrCall_ok {receiver : Receiver} {first : Token} {rest : List Token}
    (h : valueOrCall scope place receiver expected first rest = .ok code) :
    (first.kind = .call ∧ ∃ c, call scope rest = .ok c ∧
      (code = c.code ∨ code = "(int)" ++ c.code)) ∨
    (first.kind ≠ .call ∧ value scope place (Token.join (first :: rest)) expected = .ok code) := by
  unfold valueOrCall at h
  split at h
  · rename_i hk
    obtain ⟨c, hc, -, -, rfl⟩ := callValue_ok h
    refine .inl ⟨hk, c, hc, ?_⟩
    split
    · exact .inr rfl
    · exact .inl String.empty_append
  · rename_i hk
    exact .inr ⟨hk, h⟩

/-! ## Statements without a block -/

/-- The words of a declaration in front of its value. -/
theorem declaration_ok {scope' : Scope} (h : declaration scope tokens = .ok (scope', line)) :
    ∃ lead typeToken nameToken rest initial,
      tokens = lead :: typeToken :: nameToken :: rest ∧
      typeToken.kind = .typeName ∧ nameToken.kind = .identifier ∧
      scope.isDeclared nameToken.text = false ∧ scope.isFunction nameToken.text = false ∧
      let type := (ValueType.ofName? typeToken.text).getD .invalid
      type ≠ .void ∧ initialValue scope nameToken.text type rest = .ok initial ∧
      scope' = scope.declare nameToken.text type ∧
      line = type.target ++ " " ++ nameToken.text ++ match initial with
        | none => ";"
        | some init => " = " ++ init ++ ";" := by
  unfold declaration at h
  split at h
  · rename_i lead typeToken nameToken rest
    split at h
    · cases h
    · rename_i htype
      split at h
      · cases h
      · rename_i hname
        dsimp only at h
        split at h
        · cases h
        · rename_i hvoid
          split at h
          · cases h
          · rename_i hdeclared
            split at h
            · cases h
            · rename_i hfunction
              obtain ⟨initial, hinitial, h⟩ := except_bind_ok.1 h
              cases h
              exact ⟨lead, typeToken, nameToken, rest, initial, rfl, by simpa using htype,
                by simpa using hname, by simpa using hdeclared, by simpa using hfunction, hvoid,
                hinitial, rfl, rfl⟩
  · cases h

theorem initialValue_ok {name : String} {type : ValueType} {initial : Option String}
    (h : initialValue scope name type tokens = .ok initial) :
    (tokens = [] ∧ initial = none) ∨
    ∃ eq first rest code, tokens = eq :: first :: rest ∧ eq.kind = .equals ∧
      valueOrCall scope .initialValue (.place name) type first rest = .ok code ∧
      initial = some code := by
  unfold initialValue at h
  split at h
  · cases h; exact .inl ⟨rfl, rfl⟩
  · rename_i eq rest
    split at h
    · cases h
    · rename_i heq
      split at h
      · cases h
      · rename_i first more
        obtain ⟨code, hcode, h⟩ := except_bind_ok.1 h
        cases h
        exact .inr ⟨eq, first, more, code, rfl, by simpa using heq, hcode, rfl⟩

theorem assignment_ok (h : assignment scope tokens = .ok line) :
    ∃ nameToken eq first rest type code, tokens = nameToken :: eq :: first :: rest ∧
      eq.kind = .equals ∧ scope.lookup? nameToken.text = some type ∧
      valueOrCall scope .assigned (.place nameToken.text) type first rest = .ok code ∧
      line = nameToken.text ++ " = " ++ code ++ ";" := by
  unfold assignment at h
  split at h
  · rename_i nameToken eq first rest
    dsimp only at h
    split at h
    · cases h
    · split at h
      · cases h
      · rename_i type htype
        split at h
        · cases h
        · rename_i heq
          obtain ⟨code, hcode, h⟩ := except_bind_ok.1 h
          cases h
          exact ⟨nameToken, eq, first, rest, type, code, rfl, by simpa using heq, htype, hcode, rfl⟩
  · cases h

theorem printable_ok {t : Token} {u : Unit} (h : printable scope t = .ok u) :
    t.kind ∈ [Kind.string, .number, .boolean, .identifier] := by
  unfold printable at h
  split at h
  · simp [*]
  · simp [*]
  · simp [*]
  · simp [*]
  · cases h

/-- What is printed holds no mark: values, and `add` between them. -/
theorem printedValues_ok {values : List String} (h : printedValues scope tokens = .ok values) :
    ∀ t ∈ tokens, t.text = "add" ∨ t.kind ∈ [Kind.string, .number, .boolean, .identifier] := by
  induction tokens using printedValues.induct generalizing values with
  | case1 => simp
  | case2 t =>
    rw [printedValues] at h
    obtain ⟨u, hu, h⟩ := except_bind_ok.1 h
    intro t' ht'
    rw [List.mem_singleton.1 ht']
    exact .inr (printable_ok hu)
  | case3 t sep rest ih =>
    rw [printedValues] at h
    obtain ⟨u, hu, h⟩ := except_bind_ok.1 h
    split at h
    · cases h
    · rename_i hsep
      obtain ⟨values', hv, h⟩ := except_bind_ok.1 h
      intro t' ht'
      rcases List.mem_cons.1 ht' with rfl | ht'
      · exact .inr (printable_ok hu)
      · rcases List.mem_cons.1 ht' with rfl | ht'
        · exact .inl (by simpa using hsep)
        · exact ih hv t' ht'

theorem printStatement_ok (h : printStatement scope tokens = .ok line) :
    ∃ lead rest values, tokens = lead :: rest ∧ printedValues scope rest = .ok values ∧
      line = "Console.WriteLine(" ++ Text.spaced values ++ ");" := by
  unfold printStatement at h
  split at h
  · obtain ⟨values, hv, h⟩ := except_bind_ok.1 h
    cases h
    exact ⟨_, _, values, rfl, hv, rfl⟩
  · cases h

theorem callStatement_ok (h : callStatement scope tokens = .ok line) :
    ∃ c, call scope (tokens.drop 1) = .ok c ∧ line = c.code ++ ";" := by
  unfold callStatement at h
  obtain ⟨c, hc, h⟩ := except_bind_ok.1 h
  cases h
  exact ⟨c, hc, rfl⟩

/-- An accepted return is checked against the result of the function of the state. It settles this
function if it gives a value outside of all control blocks, and changes nothing else. -/
theorem returnStatement_checked {st' : State} (h : returnStatement st tokens = .ok (st', line)) :
    ∃ name f, st.function = some name ∧ st.scope.function? name = some f ∧
      st' = { st with
        settled := if f.result = .void ∨ st.insideControl = true then st.settled
          else setMember name true st.settled } ∧
      ((f.result = .void ∧ tokens.drop 1 = [] ∧ line = "return;") ∨
        ∃ first rest code, f.result ≠ .void ∧ tokens.drop 1 = first :: rest ∧
          valueOrCall st.scope .returned .caller f.result first rest = .ok code ∧
          line = "return " ++ code ++ ";") := by
  unfold returnStatement at h
  dsimp only at h
  split at h
  · cases h
  · rename_i name hname
    split at h
    · cases h
    · rename_i f hf
      refine ⟨name, f, hname, hf, ?_⟩
      split at h
      · rename_i hresult hdrop
        cases h
        rw [if_pos (.inl hresult)]
        exact ⟨rfl, .inl ⟨hresult, hdrop, rfl⟩⟩
      · cases h
      · cases h
      · rename_i hdrop hresult
        obtain ⟨code, hcode, h⟩ := except_bind_ok.1 h
        cases h
        exact ⟨by simp only [or_iff_right hresult],
          .inr ⟨_, _, code, hresult, hdrop, hcode, rfl⟩⟩

/-- A return changes at most which functions are settled. -/
theorem returnStatement_ok {st' : State} (h : returnStatement st tokens = .ok (st', line)) :
    (∃ settled, st' = { st with settled := settled }) ∧
      ((tokens.drop 1 = [] ∧ line = "return;") ∨
        ∃ first rest type code, tokens.drop 1 = first :: rest ∧
          valueOrCall st.scope .returned .caller type first rest = .ok code ∧
          line = "return " ++ code ++ ";") := by
  obtain ⟨_, f, -, -, hsettled, ⟨-, hdrop, hline⟩ | ⟨first, rest, code, -, hrest⟩⟩ :=
    returnStatement_checked h
  · exact ⟨⟨_, hsettled⟩, .inl ⟨hdrop, hline⟩⟩
  · exact ⟨⟨_, hsettled⟩, .inr ⟨first, rest, f.result, code, hrest⟩⟩

/-! ## Headers -/

theorem exists_kind_of_index? {kind : Kind} {n : Nat} (h : Token.index? kind tokens = some n) :
    ∃ t, tokens[n]? = some t ∧ t.kind = kind := by
  obtain ⟨hn, hk, -⟩ := List.findIdx?_eq_some_iff_getElem.1 h
  exact ⟨tokens[n], List.getElem?_eq_getElem hn, by simpa using hk⟩

theorem headerTokens_ok (h : headerTokens header start tokens = .ok inner) :
    ∃ t ∈ tokens, t.kind = .openBrace := by
  unfold headerTokens at h
  split at h
  · cases h
  · rename_i brace hbrace
    obtain ⟨t, ht, hk⟩ := exists_kind_of_index? hbrace
    exact ⟨t, List.mem_of_getElem? ht, hk⟩

/-- A header is what stands in front of its brace, which is its last token. -/
theorem headerTokens_split (h : headerTokens header start tokens = .ok inner) :
    ∃ before brace, tokens = before ++ (inner ++ [brace]) ∧ brace.kind = .openBrace ∧
      before ⊆ tokens.take start := by
  unfold headerTokens at h
  split at h
  · cases h
  · rename_i n hindex
    split at h
    · cases h
    · rename_i hdrop
      cases h
      obtain ⟨brace, hbrace, hk⟩ := exists_kind_of_index? hindex
      refine ⟨(tokens.take n).take start, brace, ?_, hk, ?_⟩
      · have hlast : tokens.drop n = [brace] := by
          rw [List.drop_eq_getElem?_toList_append, hbrace, hdrop]
          rfl
        rw [← List.append_assoc, List.take_append_drop, ← hlast, List.take_append_drop]
      · rw [List.take_take, Nat.min_comm, ← List.take_take]
        exact List.take_subset n _

theorem getElem?_headerTokens (h : headerTokens header start tokens = .ok inner) {j : Nat}
    {t : Token} (hj : inner[j]? = some t) : tokens[start + j]? = some t := by
  unfold headerTokens at h
  split at h
  · cases h
  · split at h
    · cases h
    · cases h
      rw [List.getElem?_drop, List.getElem?_take] at hj
      split at hj
      · exact hj
      · cases hj

/-- An accepted counting loop: its block starts with the counter, which was free. -/
theorem forLoop_ok (h : forLoop scope tokens = .ok o) :
    ∃ lead second rest lo hi, tokens = lead :: second :: rest ∧ second.kind = .fromWord ∧
      (∃ t ∈ tokens, t.kind = .openBrace) ∧
      scope.isDeclared counter = false ∧ scope.isFunction counter = false ∧
      o = ⟨headed ("for (int " ++ counter ++ " = " ++ lo ++ "; " ++ counter ++ " <= " ++ hi ++ "; "
        ++ counter ++ "++)"), [⟨counter, .integer⟩]⟩ := by
  unfold forLoop at h
  split at h
  · rename_i mid hfrom hto
    split at h
    · cases h
    · obtain ⟨bounds, hbounds, h⟩ := except_bind_ok.1 h
      dsimp only at h
      split at h
      · cases h
      · split at h
        · cases h
        · rename_i hfree
          obtain ⟨lo, hlo, h⟩ := except_bind_ok.1 h
          obtain ⟨hi, hhi, h⟩ := except_bind_ok.1 h
          cases h
          obtain ⟨t, ht, hk⟩ := exists_kind_of_index? hfrom
          rcases tokens with _ | ⟨lead, _ | ⟨second, rest⟩⟩
          · cases ht
          · cases ht
          · cases ht
            simp only [Bool.or_eq_true, not_or, Bool.not_eq_true] at hfree
            exact ⟨lead, t, rest, lo, hi, rfl, hk, headerTokens_ok hbounds, hfree.1, hfree.2, rfl⟩
  · cases h

/-- The tokens of the header of a counting loop are its bounds, and words and marks around them. -/
theorem forLoop_bounds (h : forLoop scope tokens = .ok o) :
    ∃ first last lo hi, (∀ t ∈ first ++ last, t ∈ tokens) ∧
      (∀ t ∈ tokens, tokens.head? = some t ∨ t ∈ first ++ last ∨
        t.kind ∈ [Kind.fromWord, .toWord, .openBrace]) ∧
      value scope .loopStart (Token.join first) .integer = .ok lo ∧
      value scope .loopEnd (Token.join last) .integer = .ok hi ∧
      o.code = headed ("for (int " ++ counter ++ " = " ++ lo ++ "; " ++ counter ++ " <= " ++ hi ++
        "; " ++ counter ++ "++)") := by
  unfold forLoop at h
  split at h
  · rename_i mid hfrom hto
    split at h
    · cases h
    · obtain ⟨inner, hinner, h⟩ := except_bind_ok.1 h
      dsimp only at h
      split at h
      · cases h
      · split at h
        · cases h
        · obtain ⟨lo, hlo, h⟩ := except_bind_ok.1 h
          obtain ⟨hi, hhi, h⟩ := except_bind_ok.1 h
          cases h
          obtain ⟨before, brace, htokens, hbrace, hbefore⟩ := headerTokens_split hinner
          refine ⟨inner.take (mid - 2), inner.drop (mid - 1), lo, hi, ?_, ?_, hlo, hhi, rfl⟩
          · intro t ht
            have hin : t ∈ inner := by
              rcases List.mem_append.1 ht with ht | ht
              · exact List.take_subset _ _ ht
              · exact List.drop_subset _ _ ht
            rw [htokens]
            simp [hin]
          · intro t ht
            rw [htokens, List.mem_append, List.mem_append, List.mem_singleton] at ht
            rcases ht with ht | ht | rfl
            · obtain ⟨second, hsecond, hkind⟩ := exists_kind_of_index? hfrom
              have ht := hbefore ht
              rcases tokens with _ | ⟨lead, _ | ⟨second', rest⟩⟩
              · cases hsecond
              · cases hsecond
              · cases hsecond
                rw [List.take_succ_cons, List.take_succ_cons, List.take_zero, List.mem_cons,
                  List.mem_singleton] at ht
                rcases ht with rfl | rfl
                · exact .inl rfl
                · exact .inr (.inr (by simp [hkind]))
            · obtain ⟨j, hj⟩ := List.getElem?_of_mem ht
              have hplace := getElem?_headerTokens hinner hj
              by_cases hfirst : j < mid - 2
              · refine .inr (.inl (List.mem_append_left _ (List.mem_of_getElem? (i := j) ?_)))
                rw [List.getElem?_take_of_lt hfirst, hj]
              · by_cases hlast : mid - 1 ≤ j
                · refine .inr (.inl (List.mem_append_right _
                    (List.mem_of_getElem? (i := j - (mid - 1)) ?_)))
                  rw [List.getElem?_drop, Nat.add_sub_cancel' hlast, hj]
                · obtain ⟨word, hword, hkind⟩ := exists_kind_of_index? hto
                  have hmid : 2 + j = mid := by omega
                  rw [hmid, hword] at hplace
                  cases hplace
                  exact .inr (.inr (by simp [hkind]))
            · exact .inr (.inr (by simp [hbrace]))
  · cases h

theorem whileLoop_ok (h : whileLoop scope tokens = .ok o) :
    (∃ t ∈ tokens, t.kind = .openBrace) ∧
      ∃ cond, o = { code := headed ("while (" ++ cond ++ ")") } := by
  unfold whileLoop at h
  split at h
  · cases h
  · obtain ⟨inner, hinner, h⟩ := except_bind_ok.1 h
    obtain ⟨cond, -, h⟩ := except_bind_ok.1 h
    cases h
    exact ⟨headerTokens_ok hinner, cond, rfl⟩

theorem ifStatement_ok (h : ifStatement scope tokens = .ok o) :
    (∃ t ∈ tokens, t.kind = .openBrace) ∧
      ∃ cond, o = { code := headed ("if (" ++ cond ++ ")") } := by
  unfold ifStatement at h
  obtain ⟨inner, hinner, h⟩ := except_bind_ok.1 h
  obtain ⟨cond, -, h⟩ := except_bind_ok.1 h
  cases h
  exact ⟨headerTokens_ok hinner, cond, rfl⟩

/-- An accepted loop counts exactly when its second word says so. -/
theorem loop_ok (h : loop scope tokens = .ok o) :
    forLoop scope tokens = .ok o ∨
      (whileLoop scope tokens = .ok o ∧ ∀ t ∈ tokens, t.kind ≠ .fromWord) := by
  unfold loop at h
  split at h
  · split at h
    · exact .inl h
    · rename_i hfrom
      split at h
      · refine .inr ⟨h, ?_⟩
        intro t ht hk
        apply hfrom
        rw [Token.index?, List.findIdx?_isSome, List.any_eq_true]
        exact ⟨t, ht, by simpa using hk⟩
      · cases h
  · cases h

/-! ## Functions -/

theorem param_ok {typeToken nameToken : Token} {p : Param}
    (h : param scope typeToken nameToken = .ok p) :
    typeToken.kind = .typeName ∧ nameToken.kind = .identifier ∧
      scope.isDeclared p.name = false ∧ scope.isFunction p.name = false ∧ p.type ≠ .void ∧
      p = ⟨nameToken.text, (ValueType.ofName? typeToken.text).getD .invalid⟩ := by
  unfold param at h
  split at h
  · cases h
  · rename_i hkinds
    dsimp only at h
    split at h
    · cases h
    · rename_i hvoid
      split at h
      · cases h
      · rename_i hfunction
        split at h
        · cases h
        · rename_i hdeclared
          cases h
          simp only [ne_eq, not_or, Decidable.not_not] at hkinds
          exact ⟨hkinds.1, hkinds.2, by simpa using hdeclared, by simpa using hfunction, hvoid, rfl⟩

/-- The parameters that are accepted are types and names, with commas between them. -/
theorem params_kinds {first : Bool} (h : (params scope first tokens).fault? = none) :
    (∀ t ∈ tokens, t.kind ∈ [Kind.comma, .typeName, .identifier]) ∧
      ∀ p ∈ (params scope first tokens).params, ∃ t ∈ tokens, t.kind = .identifier ∧
        t.text = p.name := by
  fun_induction params scope first tokens with
  | case1 => simp
  | case2 => cases h
  | case3 => cases h
  | case4 => cases h
  | case5 => cases h
  | case6 scope first a b hc c rest p hp more ih =>
    obtain ⟨htype, hname, -, -, -, rfl⟩ := param_ok hp
    have hcomma : a.kind = .comma := by simpa using (Bool.and_eq_true_iff.1 hc).2
    obtain ⟨hkinds, hnames⟩ := ih h
    refine ⟨?_, List.forall_mem_cons.2 ⟨⟨c, by simp, hname, rfl⟩, fun p hp => ?_⟩⟩
    · simpa [hcomma, htype, hname] using hkinds
    · obtain ⟨t, ht, htext⟩ := hnames p hp
      exact ⟨t, by simp [ht], htext⟩
  | case7 => cases h
  | case8 scope first a b rest hc p hp more ih =>
    obtain ⟨htype, hname, -, -, -, rfl⟩ := param_ok hp
    obtain ⟨hkinds, hnames⟩ := ih h
    refine ⟨?_, List.forall_mem_cons.2 ⟨⟨b, by simp, hname, rfl⟩, fun p hp => ?_⟩⟩
    · simpa [htype, hname] using hkinds
    · obtain ⟨t, ht, htext⟩ := hnames p hp
      exact ⟨t, by simp [ht], htext⟩

/-- The shape of a header, and what is read off it. -/
theorem functionHeader_iff {h : FunctionHeader} :
    functionHeader tokens = .ok h ↔
      ∃ lead result name paren close brace,
        tokens = lead :: result :: name :: paren :: (h.paramTokens ++ [close, brace]) ∧
          result.kind = .typeName ∧ name.kind = .identifier ∧ paren.kind = .openParen ∧
          close.kind = .closeParen ∧ brace.kind = .openBrace ∧ h.name = name.text ∧
          h.result = (ValueType.ofName? result.text).getD .invalid := by
  constructor
  · intro hok
    unfold functionHeader at hok
    split at hok
    · rename_i lead result name paren rest
      split at hok
      · rename_i brace close inner hrest
        have hrest : rest = inner.reverse ++ [close, brace] := by
          rw [← List.reverse_reverse rest, hrest]
          simp
        split at hok
        · cases hok
        rename_i hresult
        split at hok
        · cases hok
        rename_i hname
        split at hok
        · cases hok
        rename_i hparen
        split at hok
        · cases hok
        rename_i hclose
        split at hok
        · cases hok
        rename_i hbrace
        simp only [ne_eq, Decidable.not_not] at hresult hname hparen hclose hbrace
        cases hok
        exact ⟨lead, result, name, paren, close, brace, by rw [hrest], hresult, hname, hparen,
          hclose, hbrace, rfl, rfl⟩
      · cases hok
    · cases hok
  · rintro ⟨lead, result, name, paren, close, brace, rfl, hresult, hname, hparen, hclose, hbrace,
      hn, hr⟩
    obtain ⟨n, r, inner⟩ := h
    have hn : n = name.text := hn
    have hr : r = _ := hr
    subst hn hr
    simp [functionHeader, hresult, hname, hparen, hclose, hbrace]

theorem methodHead_eq (f : Signature) :
    methodHead f = "public static " ++ f.result.target ++ " " ++ Target.methodName f.name ++ "(" ++
      ", ".intercalate (f.params.map fun p => p.type.target ++ " " ++ p.name) ++ ")" :=
  rfl

/-- An accepted definition enters a function that was not declared. -/
theorem definition_ok (h : (definition st tokens).2 = .ok o) :
    ∃ header, functionHeader tokens = .ok header ∧
      let list := params st.scope.enterFunction true header.paramTokens
      let f : Signature := ⟨header.name, header.result, list.params⟩
      st.scope.isFunction header.name = false ∧ list.fault? = none ∧
        (definition st tokens).1.scope = list.scope.declareFunction f ∧
        o = { code := headed (methodHead f) } := by
  unfold definition at h ⊢
  cases hh : functionHeader tokens with
  | error fault =>
    rw [hh] at h
    cases h
  | ok header =>
    rw [hh] at h
    dsimp only at h ⊢
    refine ⟨header, rfl, ?_⟩
    split at h
    · cases h
    · rename_i hnew
      rw [if_neg hnew]
      split at h
      · cases h
      · rename_i hfault
        split at h
        · cases h
        · rename_i hmain
          cases h
          rw [hfault, if_neg hmain]
          exact ⟨by simpa using hnew, rfl, rfl, rfl⟩

end Courtesy.Statement
