import Courtesy.Proofs.Steps

/-!
# The table of functions

Only a header writes into the table of functions, and only for a name that is not in it. So the
entry of a name, once made, stays, and with it the mark that its parameters were at fault
(`Step.entry_ofLines`, `Run.entry_before`). What a first header enters is told by
`Step.entered_ofLine`, and every entry of a run comes from one (`Run.exists_enters`).
-/

namespace Courtesy

open Statement

/-- The line has the shape of a function header for `name`:
`please define function TYPE NAME ( ... ) {`. -/
def Line.Heads (name text : String) : Prop :=
  ∃ tokens inner, Token.ofLine text = .ok tokens ∧
    tokens.map (·.kind) =
      [.define, .typeName, .identifier, .openParen] ++ inner ++ [.closeParen, .openBrace] ∧
    tokens[2]?.map (·.text) = some name

theorem Line.heads_iff {name text : String} :
    Heads name text ↔ ∃ first rest h, Token.ofLine text = .ok (first :: rest) ∧
      first.kind = .define ∧ functionHeader (first :: rest) = .ok h ∧ h.name = name := by
  constructor
  · rintro ⟨tokens, inner, hl, hkinds, hname⟩
    rw [List.append_assoc] at hkinds
    obtain ⟨front, back, rfl, hfront, hback⟩ := List.map_eq_append_iff.1 hkinds
    obtain ⟨middle, tail, rfl, -, htail⟩ := List.map_eq_append_iff.1 hback
    simp only [List.map_eq_cons_iff, List.map_eq_nil_iff] at hfront htail
    obtain ⟨lead, _, rfl, hlead, result, _, rfl, hresult, nameToken, _, rfl, hkind, paren, _, rfl,
      hparen, rfl⟩ := hfront
    obtain ⟨close, _, rfl, hclose, brace, _, rfl, hbrace, rfl⟩ := htail
    have hname : nameToken.text = name := by simpa using hname
    refine ⟨lead, _, ⟨name, (ValueType.ofName? result.text).getD .invalid, middle⟩, hl, hlead, ?_,
      rfl⟩
    rw [functionHeader_iff]
    exact ⟨lead, result, nameToken, paren, close, brace, rfl, hresult, hkind, hparen, hclose,
      hbrace, hname.symm, rfl⟩
  · rintro ⟨first, rest, h, hl, hlead, hh, rfl⟩
    obtain ⟨lead, result, nameToken, paren, close, brace, htokens, hresult, hkind, hparen, hclose,
      hbrace, hname, -⟩ := functionHeader_iff.1 hh
    cases htokens
    refine ⟨_, h.paramTokens.map (·.kind), hl, ?_, ?_⟩
    · simp [hlead, hresult, hkind, hparen, hclose, hbrace]
    · simp [hname]

/-! ## Definitions -/

theorem Scope.name_of_function? {s : Scope} {name : String} {f : Signature}
    (h : s.function? name = some f) : f.name = name := by
  simpa using List.find?_some h

theorem Scope.isFunction_eq_false_iff {s : Scope} {name : String} :
    s.isFunction name = false ↔ s.function? name = none := by
  rw [isFunction, Option.isSome_eq_false_iff, Option.isNone_iff_eq_none]

namespace Statement

/-- Both states have the same entry for a name, and agree on whether it is marked. -/
structure State.SameEntry (name : String) (s t : State) : Prop where
  function? : t.scope.function? name = s.scope.function? name
  malformed : name ∈ t.malformed ↔ name ∈ s.malformed

theorem State.SameEntry.refl (name : String) (st : State) : st.SameEntry name st := ⟨rfl, Iff.rfl⟩

theorem State.SameEntry.trans {name : String} {s t u : State} (h : s.SameEntry name t)
    (h' : t.SameEntry name u) : s.SameEntry name u :=
  ⟨h'.function?.trans h.function?, h'.malformed.trans h.malformed⟩

theorem State.SameEntry.of_functions {name : String} {s t : State}
    (hf : t.scope.functions = s.scope.functions) (hm : t.malformed = s.malformed) :
    s.SameEntry name t :=
  ⟨by rw [Scope.function?, Scope.function?, hf], by rw [hm]⟩

theorem functions_params (s : Scope) (first : Bool) (tokens : List Token) :
    (params s first tokens).scope.functions = s.functions := by
  fun_induction params s first tokens with
  | case6 s first a b hc c rest p hp more ih => exact ih.trans (Scope.functions_declare _ _ s)
  | case8 s first a b rest hc p hp more ih => exact ih.trans (Scope.functions_declare _ _ s)
  | _ => rfl

/-- No parameter and no fault is read off nothing only. -/
theorem params_eq_nil_iff {s : Scope} {tokens : List Token} :
    (params s true tokens).params = [] ∧ (params s true tokens).fault? = none ↔ tokens = [] := by
  constructor
  · rintro ⟨hp, hf⟩
    rcases tokens with _ | ⟨a, _ | ⟨b, rest⟩⟩
    · rfl
    · cases hf
    · rw [params.eq_def] at hp hf
      simp only [Bool.not_true, Bool.false_and, Bool.false_eq_true, ↓reduceIte] at hp hf
      split at hp
      · rename_i fault hfault
        rw [hfault] at hf
        cases hf
      · cases hp
  · rintro rfl
    exact ⟨rfl, rfl⟩

section

variable {st : State} {tokens : List Token} {name : String}

/-- A header enters nothing for a name that has an entry, nor for another name. -/
theorem definition_sameEntry (h : ∀ header, functionHeader tokens = .ok header →
    header.name = name → st.scope.function? name ≠ none) :
    st.SameEntry name (definition st tokens).1 := by
  unfold definition
  split
  · exact .refl name st
  · rename_i header hh
    dsimp only
    split
    · exact ⟨rfl, Iff.rfl⟩
    · rename_i hnew
      have hne : header.name ≠ name := by
        rintro rfl
        obtain ⟨f, hf⟩ := Option.ne_none_iff_exists'.1 (h header hh rfl)
        exact hnew (by rw [Scope.isFunction, hf]; rfl)
      have hfunction : ∀ ps, ((params st.scope.enterFunction true header.paramTokens).scope
          |>.declareFunction ⟨header.name, header.result, ps⟩).function? name
            = st.scope.function? name := by
        intro ps
        rw [Scope.function?_declareFunction, if_neg hne, Scope.function?, functions_params]
        rfl
      split
      · refine ⟨hfunction _, ?_⟩
        simp [hne.symm]
      · split
        · exact ⟨hfunction _, Iff.rfl⟩
        · exact ⟨hfunction _, Iff.rfl⟩

/-- A header enters its function under a new name, and marks it when its parameters are at fault. -/
theorem definition_entered {header : FunctionHeader} (hh : functionHeader tokens = .ok header)
    (hnew : st.scope.function? header.name = none) :
    let list := params st.scope.enterFunction true header.paramTokens
    (definition st tokens).1.scope.function? header.name =
        some ⟨header.name, header.result, list.params⟩ ∧
      (header.name ∈ (definition st tokens).1.malformed ↔
        list.fault? ≠ none ∨ header.name ∈ st.malformed) := by
  intro list
  have hno : st.scope.isFunction header.name = false := Scope.isFunction_eq_false_iff.2 hnew
  simp only [definition, hh, hno, Bool.false_eq_true, ↓reduceIte]
  split
  · rename_i fault hfault
    have hfault : list.fault? = some fault := hfault
    rw [hfault]
    simp [Scope.function?_declareFunction, list]
  · rename_i hfault
    have hfault : list.fault? = none := hfault
    rw [hfault]
    split
    · simp [Scope.function?_declareFunction, list]
    · simp [Scope.function?_declareFunction, list]

/-- No other statement touches the table. -/
theorem Performed.functions {kind : Kind} {o : Outcome} (h : Performed st tokens kind o)
    (hk : kind ≠ .define) :
    o.state.scope.functions = st.scope.functions ∧ o.state.malformed = st.malformed := by
  cases h with
  | defined => exact absurd rfl hk
  | created hok =>
    obtain ⟨_, _, _, _, _, _, _, _, _, _, _, _, rfl, _⟩ := declaration_ok hok
    exact ⟨Scope.functions_declare _ _ _, rfl⟩
  | _ => exact ⟨rfl, rfl⟩

theorem Performed.sameEntry {first : Token} {rest : List Token} {o : Outcome}
    (h : Performed st (first :: rest) first.kind o)
    (hheads : first.kind = .define → ∀ header, functionHeader (first :: rest) = .ok header →
      header.name = name → st.scope.function? name ≠ none) :
    st.SameEntry name o.state := by
  by_cases hk : first.kind = .define
  · have hheads := hheads hk
    rw [hk] at h
    cases h with
    | defined => exact definition_sameEntry hheads
    | refused _ hne => exact absurd rfl hne
  · exact .of_functions (h.functions hk).1 (h.functions hk).2

end

theorem State.openBlock_sameEntry (st : State) (vars : List Param) (name : String) :
    st.SameEntry name (st.openBlock vars) :=
  .of_functions (Scope.functions_declareAll vars st.scope.push) rfl

end Statement

/-! ## Lines -/

namespace Step

section

variable {st : State} {text name : String}

theorem marked_sameEntry (st : State) (text name : String) :
    st.SameEntry name (marked st text) := by
  unfold marked
  split
  · exact ⟨rfl, Iff.rfl⟩
  · exact .refl name st

theorem Reading.sameEntry {r : Step × List Param} (h : Reading st text r)
    (hheads : Line.Heads name text → st.scope.function? name ≠ none) :
    st.SameEntry name r.1.state := by
  have hfunction : ∀ {first rest}, Token.ofLine text = .ok (first :: rest) →
      first.kind = .define → ∀ header, functionHeader (first :: rest) = .ok header →
        header.name = name → st.scope.function? name ≠ none :=
    fun hl hk header hh hn => hheads (Line.heads_iff.2 ⟨_, _, header, hl, hk, hh, hn⟩)
  cases h with
  | blank _ => exact .refl name st
  | unread _ _ _ => exact .refl name st
  | rejected _ hl hp => exact hp.sameEntry (hfunction hl)
  | accepted _ hl hp => exact hp.sameEntry (hfunction hl)

/-- A line leaves an entry alone, unless it is the first header of its name. -/
theorem entry_ofLine (st : State) (hheads : Line.Heads name text → st.scope.function? name ≠ none) :
    st.SameEntry name (ofLine st text).state := by
  by_cases h : text = "\x7d"
  · subst h
    cases hb : st.blocks with
    | nil => rw [ofLine_closing_nil hb]; exact ⟨rfl, Iff.rfl⟩
    | cons b outer => rw [ofLine_closing_cons hb]; exact ⟨rfl, Iff.rfl⟩
  · have hmarked := marked_sameEntry st text name
    have hr := (perform_reading (marked st text) text).sameEntry (by rwa [hmarked.function?])
    rw [ofLine_statement h]
    generalize perform (marked st text) text = r at hr ⊢
    dsimp only
    split
    · have ho := (hmarked.trans hr).trans (r.1.state.openBlock_sameEntry r.2 name)
      exact ⟨ho.function?, ho.malformed⟩
    · have ho := hmarked.trans hr
      exact ⟨ho.function?, ho.malformed⟩

/-- An entry, once made, stays. -/
theorem entry_ofLines (hentry : st.scope.function? name ≠ none) (xs : List String) :
    st.SameEntry name (ofLines st xs).state := by
  induction xs generalizing st with
  | nil => exact .refl name st
  | cons x xs ih =>
    have hx : st.SameEntry name (ofLine st x).state := entry_ofLine st fun _ => hentry
    exact hx.trans (ih (by rwa [hx.function?]))

/-- A line that is led by a definition is carried out by it; its block starts without variables. -/
theorem perform_define (st : State) {first : Token} {rest : List Token}
    (hl : Token.ofLine text = .ok (first :: rest)) (hlead : first.kind = .define) :
    (perform st text).1.state = (definition st (first :: rest)).1 ∧ (perform st text).2 = [] := by
  have hperform : Statement.perform st first.kind (first :: rest) =
      some ⟨(definition st (first :: rest)).1, (definition st (first :: rest)).2⟩ := by
    rw [hlead]
    rfl
  simp only [perform, hl, hperform]
  cases hd : (definition st (first :: rest)).2 with
  | error fault => exact ⟨rfl, rfl⟩
  | ok o =>
    obtain ⟨_, _, _, _, _, rfl⟩ := definition_ok hd
    exact ⟨rfl, rfl⟩

theorem ne_closing_of_define {first : Token} {rest : List Token}
    (hl : Token.ofLine text = .ok (first :: rest)) (hlead : first.kind = .define) :
    text ≠ "\x7d" := by
  rintro rfl
  rw [Token.ofLine_closeBrace] at hl
  cases hl
  cases hlead

/-- The first header of a name makes its entry. -/
theorem entered_ofLine {first : Token} {rest : List Token} {h : FunctionHeader}
    (hl : Token.ofLine text = .ok (first :: rest)) (hlead : first.kind = .define)
    (hh : functionHeader (first :: rest) = .ok h) (hnew : st.scope.function? h.name = none) :
    let list := params st.scope.enterFunction true h.paramTokens
    (ofLine st text).state.scope.function? h.name = some ⟨h.name, h.result, list.params⟩ ∧
      (h.name ∈ (ofLine st text).state.malformed ↔ list.fault? ≠ none ∨ h.name ∈ st.malformed) := by
  intro list
  have hne := ne_closing_of_define hl hlead
  have hmarked := marked_sameEntry st text h.name
  have hfresh : (marked st text).scope.function? h.name = none := by rwa [marked_scope]
  have hentered := definition_entered hh hfresh
  have hstate : (perform (marked st text) text).1.state =
      (definition (marked st text) (first :: rest)).1 := (perform_define _ hl hlead).1
  rw [marked_scope] at hentered
  rw [ofLine_statement hne]
  generalize perform (marked st text) text = r at hstate ⊢
  rw [← hstate] at hentered
  dsimp only
  split
  · have ho := r.1.state.openBlock_sameEntry r.2 h.name
    exact ⟨ho.function?.trans hentered.1, by
      rw [ho.malformed, hentered.2, hmarked.malformed]⟩
  · exact ⟨hentered.1, by rw [hentered.2, hmarked.malformed]⟩

end

/-- What is known of a header that is accepted. -/
theorem Accepts.header {st : State} {text : String} {first : Token} {rest : List Token}
    (hacc : Accepts st text) (hl : Token.ofLine text = .ok (first :: rest))
    (hlead : first.kind = .define) :
    ∃ h, functionHeader (first :: rest) = .ok h ∧ st.scope.function? h.name = none ∧
      let list := params st.scope.enterFunction true h.paramTokens
      list.fault? = none ∧ (ofLine st text).emitted =
        st.indented (headed (methodHead ⟨h.name, h.result, list.params⟩)) := by
  have hne := ne_closing_of_define hl hlead
  obtain ⟨st', o, hp, hemitted⟩ := hacc.carried hne hl
  have hdefined : (definition (marked st text) (first :: rest)).2 = .ok o := by
    rw [hlead] at hp
    generalize ho : (⟨st', .ok o⟩ : Outcome) = outcome at hp
    cases hp with
    | defined => exact (congrArg Outcome.result ho).symm
    | refused _ hdef => exact absurd rfl hdef
  obtain ⟨h, hh, hnew, hfault, -, rfl⟩ := definition_ok hdefined
  rw [marked_scope] at hnew hfault
  refine ⟨h, hh, Scope.isFunction_eq_false_iff.1 hnew, hfault, ?_⟩
  rw [hemitted, marked_scope]

/-- The line is the first header of `f`: it has the shape of a header for a name without an entry,
and `f` is the entry that it makes. The parameters of a header that is refused are those in front of
its fault. -/
def Enters (st : State) (text : String) (f : Signature) : Prop :=
  Line.Heads f.name text ∧ st.scope.function? f.name = none ∧
    (ofLine st text).state.scope.function? f.name = some f

theorem enters_of_heads {st : State} {text name : String} (h : Line.Heads name text)
    (hnew : st.scope.function? name = none) : ∃ f, f.name = name ∧ Enters st text f := by
  obtain ⟨first, rest, header, hl, hlead, hh, rfl⟩ := Line.heads_iff.1 h
  let list := params st.scope.enterFunction true header.paramTokens
  exact ⟨⟨header.name, header.result, list.params⟩, rfl, h, hnew,
    (entered_ofLine hl hlead hh hnew).1⟩

theorem Enters.entry {st : State} {text : String} {f : Signature} (h : Enters st text f)
    {first : Token} {rest : List Token} {header : FunctionHeader}
    (hl : Token.ofLine text = .ok (first :: rest)) (hlead : first.kind = .define)
    (hh : functionHeader (first :: rest) = .ok header) :
    f = ⟨header.name, header.result,
      (params st.scope.enterFunction true header.paramTokens).params⟩ := by
  obtain ⟨hheads, hnew, hentry⟩ := h
  obtain ⟨first', rest', header', hl', -, hh', hname⟩ := Line.heads_iff.1 hheads
  rw [hl] at hl'
  cases hl'
  rw [hh] at hh'
  cases hh'
  rw [← hname] at hnew hentry
  exact Option.some.inj (hentry.symm.trans (entered_ofLine hl hlead hh hnew).1)

/-- An accepted header enters its function. -/
theorem Accepts.enters {st : State} {text name : String} (hacc : Accepts st text)
    (h : Line.Heads name text) : ∃ f, f.name = name ∧ Enters st text f := by
  obtain ⟨first, rest, header, hl, hlead, hh, rfl⟩ := Line.heads_iff.1 h
  obtain ⟨header', hh', hnew, -⟩ := hacc.header hl hlead
  rw [hh] at hh'
  cases hh'
  exact enters_of_heads h hnew

/-- What is emitted for an accepted header declares the function that it enters. -/
theorem Enters.emitted {st : State} {text : String} {f : Signature} (h : Enters st text f)
    (hacc : Accepts st text) : (ofLine st text).emitted = st.indented (headed (methodHead f)) := by
  obtain ⟨first, rest, header, hl, hlead, hh, -⟩ := Line.heads_iff.1 h.1
  obtain ⟨header', hh', -, -, hemitted⟩ := hacc.header hl hlead
  rw [hh] at hh'
  cases hh'
  rw [hemitted, h.entry hl hlead hh]

end Step

/-! ## Runs -/

theorem Nesting.before_of_getElem?_none {program : List String} {k : Nat}
    (h : program[k]? = none) : before program (k + 1) = before program k := by
  rw [before, before, List.take_add_one, h, Option.toList_none, List.append_nil]

namespace Run

theorem before_of_getElem?_none {program : List String} {k : Nat} (h : program[k]? = none) :
    before program (k + 1) = before program k := by
  rw [before, before, List.take_add_one, h, Option.toList_none, List.append_nil]

/-- The line with index `m` has the shape of a header for `name`. -/
def Heads (program : List String) (m : Nat) (name : String) : Prop :=
  ∃ text, program[m]? = some text ∧ Line.Heads name text

/-- The line with index `m` is the first header of `f`. -/
def Enters (program : List String) (m : Nat) (f : Signature) : Prop :=
  ∃ text, program[m]? = some text ∧ Step.Enters (before program m) text f

section

variable {program : List String} {k n : Nat} {name : String} {f : Signature}

theorem heads_iff {text : String} (h : program[n]? = some text) :
    Heads program n name ↔ Line.Heads name text := by
  constructor
  · rintro ⟨text', h', hheads⟩
    rw [h] at h'
    cases h'
    exact hheads
  · intro hheads
    exact ⟨text, h, hheads⟩

/-- An entry, once made, stays for the rest of the run. -/
theorem entry_before (hkn : k ≤ n) (h : (before program k).scope.function? name = some f) :
    (before program n).scope.function? name = some f := by
  induction hkn with
  | refl => exact h
  | @step n _ ih =>
    cases hn : program[n]? with
    | none => rw [before_of_getElem?_none hn, ih]
    | some text =>
      have hentry : (before program n).scope.function? name ≠ none := by
        rw [ih]
        exact Option.some_ne_none f
      rw [before_succ hn, (Step.entry_ofLine _ fun _ => hentry).function?, ih]

/-- What is in the table has been entered by an earlier line. -/
theorem exists_enters (h : (before program n).scope.function? name = some f) :
    ∃ m < n, f.name = name ∧ Enters program m f := by
  induction n with
  | zero => cases h
  | succ n ih =>
    cases hn : program[n]? with
    | none =>
      rw [before_of_getElem?_none hn] at h
      obtain ⟨m, hm, hf⟩ := ih h
      exact ⟨m, Nat.lt_succ_of_lt hm, hf⟩
    | some text =>
      rw [before_succ hn] at h
      by_cases hfirst : Line.Heads name text ∧ (before program n).scope.function? name = none
      · obtain ⟨g, rfl, henters⟩ := Step.enters_of_heads hfirst.1 hfirst.2
        have hgf : g = f := Option.some.inj (henters.2.2.symm.trans h)
        subst hgf
        exact ⟨n, Nat.lt_succ_self n, rfl, text, hn, henters⟩
      · have hsame := Step.entry_ofLine (before program n) fun hheads hnone =>
          hfirst ⟨hheads, hnone⟩
        rw [hsame.function?] at h
        obtain ⟨m, hm, hf⟩ := ih h
        exact ⟨m, Nat.lt_succ_of_lt hm, hf⟩

/-- No name is entered before the line that enters it. -/
theorem Enters.not_above {m : Nat} {g : Signature} (hf : Enters program m f)
    (hg : Enters program n g) (hname : g.name = f.name) : m ≤ n := by
  obtain ⟨_, -, -, hnew, -⟩ := hf
  obtain ⟨text, htext, -, -, hentry⟩ := hg
  rw [← before_succ htext, hname] at hentry
  apply Nat.le_of_not_lt
  intro hnm
  rw [entry_before hnm hentry] at hnew
  cases hnew

end

end Run

end Courtesy
