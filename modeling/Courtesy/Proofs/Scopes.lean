import Courtesy.Proofs.Steps

/-!
# How scopes come about

A translation changes its scope in a few ways, and looks at what it declares before it does: the
name is an identifier that is not bound, and the type is one that values have. `Scope.Built` lists
these ways, and every scope of a run is built by them (`Run.before_built`). So no name is bound
twice (`Scope.Built.distinct`), and all that is bound is named and typed as a variable
(`Scope.Built.named`). Functions are named by identifiers too (`Scope.Built.callable`).
-/

namespace Courtesy

open Statement

/-! ## Binding and looking up -/

theorem lookup_eq_some_iff_mem {vs : Variables} (h : (vs.map (·.1)).Nodup) {x : String}
    {t : ValueType} : vs.lookup x = some t ↔ (x, t) ∈ vs := by
  induction vs with
  | nil => simp
  | cons v vs ih =>
    obtain ⟨y, u⟩ := v
    rw [List.map_cons, List.nodup_cons] at h
    rw [List.lookup_cons, List.mem_cons, ← ih h.2]
    by_cases hxy : x = y
    · subst hxy
      have hnone : vs.lookup x ≠ some t := by
        intro ht
        exact h.1 (List.mem_map.2 ⟨(x, t), (ih h.2).1 ht, rfl⟩)
      simp [hnone, eq_comm]
    · have hb : (x == y) = false := by simpa using hxy
      simp [hb, hxy]

namespace Scope

theorem lookup?_eq (s : Scope) (x : String) : s.lookup? x = s.frames.flatten.lookup x := by
  unfold lookup?
  induction s.frames with
  | nil => rfl
  | cons frame outer ih =>
    rw [List.findSome?_cons, List.flatten_cons, List.lookup_append, ih]
    cases frame.lookup x <;> rfl

variable {s : Scope} {x : String} {t : ValueType}

theorem not_mem_of_isDeclared (h : s.isDeclared x = false) : (x, t) ∉ s.frames.flatten := by
  intro hm
  rw [isDeclared, lookup?_eq, Option.isSome_eq_false_iff, Option.isNone_iff_eq_none,
    List.lookup_eq_none_iff] at h
  simpa using h _ hm

theorem bind_fresh (h : s.isDeclared x = false) {frame : Variables} (hf : frame ∈ s.frames)
    (t : ValueType) : frame.bind x t = (x, t) :: frame := by
  unfold Variables.bind
  rw [List.filter_eq_self.2]
  intro v hv
  have : v.1 ≠ x := by
    rintro rfl
    exact not_mem_of_isDeclared h (List.mem_flatten.2 ⟨frame, hf, hv⟩)
  simpa using this

/-- A name that is not bound comes to stand in front of the innermost frame. -/
theorem declare_fresh (h : s.isDeclared x = false) (t : ValueType) :
    s.declare x t =
      { s with frames := ((x, t) :: s.frames.headD []) :: s.frames.tail } := by
  unfold declare
  split
  · rename_i hf
    rw [hf]
    rfl
  · rename_i frame outer hf
    rw [bind_fresh h (by rw [hf]; exact List.mem_cons_self), hf]
    rfl

theorem flatten_declare (h : s.isDeclared x = false) (t : ValueType) :
    (s.declare x t).frames.flatten = (x, t) :: s.frames.flatten := by
  rw [declare_fresh h]
  cases s.frames <;> rfl

/-- No name is bound twice, neither in one frame nor in two. -/
def Distinct (s : Scope) : Prop := (s.frames.flatten.map (·.1)).Nodup

theorem Distinct.lookup_visible (h : s.Distinct) :
    s.visible.lookup x = some t ↔ (x, t) ∈ s.frames.flatten := by
  rw [Scope.lookup_visible, lookup?_eq, lookup_eq_some_iff_mem h]

theorem flatten_pop_sublist (s : Scope) : s.pop.frames.flatten.Sublist s.frames.flatten := by
  unfold pop
  cases s.frames with
  | nil => exact .slnil
  | cons frame outer => exact List.sublist_append_right frame outer.flatten

/-! ## Scopes that are built -/

/-- The scopes that come about by opening and closing blocks and functions and by declaring free
names. -/
inductive Built : Scope → Prop
  | empty : Built {}
  | push {s : Scope} (h : Built s) : Built s.push
  | pop {s : Scope} (h : Built s) : Built s.pop
  | enter {s : Scope} (h : Built s) : Built s.enterFunction
  | define {s : Scope} (h : Built s) {f : Signature} (hname : classify f.name = .identifier) :
      Built (s.declareFunction f)
  | declare {s : Scope} (h : Built s) {x : String} {t : ValueType} (hfree : s.isDeclared x = false)
      (hname : classify x = .identifier) (htype : Expression.isValueType t = true) :
      Built (s.declare x t)

theorem Built.distinct (h : s.Built) : s.Distinct := by
  induction h with
  | empty => exact List.nodup_nil
  | push _ ih => exact ih
  | pop _ ih => exact ih.sublist ((flatten_pop_sublist _).map _)
  | enter _ _ => exact List.nodup_nil
  | define _ _ ih => exact ih
  | @declare s x t _ hfree _ _ ih =>
    unfold Distinct
    rw [flatten_declare hfree, List.map_cons, List.nodup_cons]
    refine ⟨?_, ih⟩
    intro hm
    obtain ⟨⟨y, u⟩, hy, rfl⟩ := List.mem_map.1 hm
    exact not_mem_of_isDeclared hfree hy

/-- What can be called has the name of a function. -/
theorem Built.callable (h : s.Built) {name : String} {f : Signature}
    (hf : s.function? name = some f) : classify name = .identifier := by
  induction h with
  | empty => cases hf
  | push _ ih => exact ih hf
  | pop _ ih => exact ih hf
  | enter _ ih => exact ih hf
  | define _ hname ih =>
    rw [function?_declareFunction] at hf
    split at hf
    · rename_i heq
      rw [← heq]
      exact hname
    · exact ih hf
  | declare _ _ _ _ ih =>
    rw [function?, functions_declare] at hf
    exact ih hf

/-- What is bound has the name and the type of a variable. -/
theorem Built.named (h : s.Built) (hx : (x, t) ∈ s.frames.flatten) :
    classify x = .identifier ∧ Expression.isValueType t = true := by
  induction h with
  | empty => cases hx
  | push _ ih => exact ih hx
  | pop _ ih => exact ih ((flatten_pop_sublist _).subset hx)
  | enter _ _ => cases hx
  | define _ _ ih => exact ih hx
  | declare _ hfree hname htype ih =>
    rw [flatten_declare hfree] at hx
    rcases List.mem_cons.1 hx with heq | hx
    · cases heq
      exact ⟨hname, htype⟩
    · exact ih hx

end Scope

namespace Statement

theorem isValueType_of_typeName {token : Token} (hvalid : token.Valid)
    (hk : token.kind = .typeName)
    (hvoid : (ValueType.ofName? token.text).getD .invalid ≠ .void) :
    Expression.isValueType ((ValueType.ofName? token.text).getD .invalid) = true := by
  have hall : ∀ type ∈ ValueType.declared, type ≠ .void → Expression.isValueType type = true := by
    decide
  obtain ⟨type, htype⟩ := ofName?_of_typeName (hvalid.1.symm.trans hk)
  rw [htype, Option.getD_some] at hvoid ⊢
  exact hall type (List.mem_of_find?_eq_some htype) hvoid

theorem params_built {s : Scope} (h : s.Built) (first : Bool) {tokens : List Token}
    (hts : ∀ t ∈ tokens, t.Valid) : (params s first tokens).scope.Built := by
  have step : ∀ {s : Scope} {a b : Token} {p : Param}, s.Built → a.Valid → b.Valid →
      param s a b = .ok p → (s.declare p.name p.type).Built := by
    intro s a b p h ha hb hp
    obtain ⟨hka, hkb, hfree, -, hvoid, rfl⟩ := param_ok hp
    exact h.declare hfree (hb.1.symm.trans hkb) (isValueType_of_typeName ha hka hvoid)
  fun_induction params s first tokens with
  | case6 s first a b hc c rest p hp more ih =>
    simp only [List.forall_mem_cons] at hts
    exact ih (step h hts.2.1 hts.2.2.1 hp) hts.2.2.2
  | case8 s first a b rest hc p hp more ih =>
    simp only [List.forall_mem_cons] at hts
    exact ih (step h hts.1 hts.2.1 hp) hts.2.2
  | _ => exact h

theorem definition_built {st : State} (h : st.scope.Built) {tokens : List Token}
    (hts : ∀ t ∈ tokens, t.Valid) : (definition st tokens).1.scope.Built := by
  unfold definition
  split
  · exact h
  · rename_i header hheader
    obtain ⟨_, _, name, _, _, _, rfl, -, hk, -, -, -, hn, -⟩ := functionHeader_iff.1 hheader
    have hparams : ∀ t ∈ header.paramTokens, t.Valid := fun t ht => hts t (by simp [ht])
    have hname : classify header.name = .identifier := by
      rw [hn, ← (hts name (by simp)).1, hk]
    dsimp only
    split
    · exact h
    · have hlist := params_built h.enter true hparams
      split
      · exact hlist.define hname
      · split <;> exact hlist.define hname

theorem Performed.built {st : State} {tokens : List Token} {kind : Kind} {o : Outcome}
    (h : Performed st tokens kind o) (hts : ∀ t ∈ tokens, t.Valid) (hb : st.scope.Built) :
    o.state.scope.Built := by
  cases h with
  | defined => exact definition_built hb hts
  | created hok =>
    obtain ⟨lead, typeToken, nameToken, _, _, rfl, htype, hname, hfree, -, hvoid, -, rfl, -⟩ :=
      declaration_ok hok
    have hvalid : typeToken.Valid := hts typeToken (by simp)
    have hidentifier : classify nameToken.text = .identifier :=
      (hts nameToken (by simp)).1.symm.trans hname
    exact hb.declare hfree hidentifier (isValueType_of_typeName hvalid htype hvoid)
  | _ => exact hb

/-- The variables that a block starts with: the counter of a counting loop, or none. -/
theorem Performed.vars {st : State} {tokens : List Token} {kind : Kind} {st' : State} {o : Opening}
    (h : Performed st tokens kind ⟨st', .ok o⟩) :
    o.vars = [] ∨ (o.vars = [⟨counter, .integer⟩] ∧ st'.scope = st.scope ∧
      st.scope.isDeclared counter = false) := by
  generalize ho : (⟨st', .ok o⟩ : Outcome) = outcome at h
  cases h with
  | looped hok =>
    cases ho
    rcases loop_ok hok with hfor | ⟨hwhile, -⟩
    · obtain ⟨_, _, _, _, _, _, _, _, hfree, _, rfl⟩ := forLoop_ok hfor
      exact .inr ⟨rfl, rfl, hfree⟩
    · obtain ⟨-, _, rfl⟩ := whileLoop_ok hwhile
      exact .inl rfl
  | checked hok =>
    cases ho
    obtain ⟨-, _, rfl⟩ := ifStatement_ok hok
    exact .inl rfl
  | defined =>
    simp only [Outcome.mk.injEq] at ho
    obtain ⟨_, _, _, _, _, rfl⟩ := definition_ok ho.2.symm
    exact .inl rfl
  | refused fault hk => cases ho
  | _ => cases ho; exact .inl rfl

end Statement

namespace Step

theorem Reading.built {st : State} {text : String} {r : Step × List Param}
    (h : Reading st text r) (hb : st.scope.Built) :
    r.1.state.scope.Built ∧ (r.1.state.scope.push.declareAll r.2).Built := by
  cases h with
  | blank _ => exact ⟨hb, hb.push⟩
  | unread _ _ _ => exact ⟨hb, hb.push⟩
  | rejected _ hl hp =>
    have hbuilt := hp.built (Token.valid_of_ofLine hl) hb
    exact ⟨hbuilt, hbuilt.push⟩
  | accepted _ hl hp =>
    have hbuilt := hp.built (Token.valid_of_ofLine hl) hb
    refine ⟨hbuilt, ?_⟩
    rcases hp.vars with hv | ⟨hv, hs, hfree⟩
    · rw [hv]
      exact hbuilt.push
    · rw [hv]
      exact hbuilt.push.declare (by rw [← hs] at hfree; exact hfree) (by decide) rfl

theorem built_ofLine {st : State} (hb : st.scope.Built) (text : String) :
    (ofLine st text).state.scope.Built := by
  by_cases h : text = "\x7d"
  · subst h
    cases hblocks : st.blocks with
    | nil => rw [ofLine_closing_nil hblocks]; exact hb
    | cons b outer => rw [ofLine_closing_cons hblocks]; exact hb.pop
  · have hr := (perform_reading (marked st text) text).built (by rwa [marked_scope])
    rw [ofLine_statement h]
    generalize perform (marked st text) text = r at hr ⊢
    dsimp only
    split
    · exact hr.2
    · exact hr.1

theorem built_ofLines {st : State} (hb : st.scope.Built) (xs : List String) :
    (ofLines st xs).state.scope.Built := by
  induction xs generalizing st with
  | nil => exact hb
  | cons x xs ih => exact ih (built_ofLine hb x)

end Step

theorem Run.before_built (program : List String) (k : Nat) : (before program k).scope.Built :=
  Step.built_ofLines .empty _

end Courtesy
