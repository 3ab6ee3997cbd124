import Courtesy.Proofs.Functions

/-!
# What a fault blames

A fault blames a text, and the text comes from the tokens of its statement: it is one of them, an
atom of an expression that they form, such an atom with a minus sign in front of it, some tokens of
a condition joined by spaces, or one of a few fixed words (`Statement.Blamed`). One lemma for each
function of the checkers says that it fails with such faults only (`Confined`). Main statement:
`Statement.perform_blames`.
-/

namespace Courtesy

open Text

/-! ## How a computation ends -/

/-- A computation fails with an error of one kind, or succeeds with a value of one kind. -/
inductive Confined {ε α : Type} (E : ε → Prop) (R : α → Prop) : Except ε α → Prop
  | error {e : ε} (h : E e) : Confined E R (.error e)
  | ok {a : α} (h : R a) : Confined E R (.ok a)

namespace Confined

variable {ε α β : Type} {E : ε → Prop} {R : α → Prop} {S : β → Prop}

theorem pure {a : α} (h : R a) : Confined E R (Pure.pure a : Except ε α) := .ok h

theorem bind {x : Except ε α} {f : α → Except ε β} (h : Confined E R x)
    (hf : ∀ a, R a → Confined E S (f a)) : Confined E S (x >>= f) := by
  cases h with
  | error he => exact .error he
  | ok ha => exact hf _ ha

theorem ite {c : Prop} [Decidable c] {x y : Except ε α} (h : c → Confined E R x)
    (h' : ¬ c → Confined E R y) : Confined E R (if c then x else y) := by
  by_cases hc : c
  · rw [if_pos hc]
    exact h hc
  · rw [if_neg hc]
    exact h' hc

theorem of_error {e : ε} (h : Confined E R (.error e : Except ε α)) : E e := by
  cases h with
  | error he => exact he

theorem mono {E' : ε → Prop} {R' : α → Prop} {x : Except ε α} (h : Confined E R x)
    (hE : ∀ e, E e → E' e) (hR : ∀ a, R a → R' a) : Confined E' R' x := by
  cases h with
  | error he => exact .error (hE _ he)
  | ok ha => exact .ok (hR _ ha)

theorem mapM {f : β → Except ε α} {xs : List β} (h : ∀ x ∈ xs, Confined E R (f x)) :
    Confined E (fun ys => ∀ y ∈ ys, R y) (xs.mapM f) := by
  induction xs with
  | nil => exact .pure (List.forall_mem_nil _)
  | cons x xs ih =>
    obtain ⟨hx, hxs⟩ := List.forall_mem_cons.1 h
    rw [List.mapM_cons]
    exact hx.bind fun y hy => (ih hxs).bind fun ys hys => .pure (List.forall_mem_cons.2 ⟨hy, hys⟩)

end Confined

/-! ## Expressions -/

namespace Expression

/-- The texts that an expression with given atoms can be blamed for. -/
inductive Blamed (atoms : List String) : String → Prop
  | nothing : Blamed atoms ""
  | atom {a : String} (h : a ∈ atoms) : Blamed atoms a
  | negated {a : String} (h : a ∈ atoms) : Blamed atoms ("-" ++ a)
  | opening : Blamed atoms "("

theorem admitNumber_blames (literal : String) (expected : ValueType) (operands : Nat) :
    Confined (fun e => e.blame = literal) (fun _ => True)
      (admitNumber literal expected operands) := by
  cases expected with
  | integer => exact .ite (fun _ => .error rfl) fun _ => .ok trivial
  | boolean => exact .error rfl
  | text => exact .ite (fun _ => .error rfl) fun _ => .ok trivial
  | _ => exact .ok trivial

theorem pass_blames (vars : Variables) (expected : ValueType) (operands : Nat) (role : Role)
    (atom : String) :
    Confined (fun e => e.blame = atom) (fun _ => True) (pass vars expected operands role atom) := by
  cases role with
  | var =>
    unfold pass
    dsimp only
    split
    · exact .error rfl
    · refine Confined.bind (R := fun _ => True) ?_ fun _ _ => .pure trivial
      exact .ite (fun _ => .ok trivial) fun _ => .ite (fun _ => .ok trivial) fun _ =>
        .ite (fun _ => .error rfl) fun _ => .error rfl
  | number => exact (admitNumber_blames atom expected operands).bind fun _ _ => .pure trivial
  | string =>
    refine Confined.bind (R := fun _ => True) ?_ fun _ _ => .pure trivial
    cases expected with
    | text => exact .ok trivial
    | _ => exact .error rfl
  | boolean =>
    refine Confined.bind (R := fun _ => True) ?_ fun _ _ => .pure trivial
    exact .ite (fun _ => .ok trivial) fun _ => .error rfl
  | _ => exact .ok trivial

section

variable {all : List String}

/-- The items of an expression bear texts that it can be blamed for. -/
theorem gate_blames (vars : Variables) (expected : ValueType) {prev : Option String}
    {operands : Nat} {atoms : List String} (h : atoms ⊆ all) :
    Confined (fun e => Blamed all e.blame) (fun r => ∀ i ∈ r.1, Blamed all i.text)
      (gate vars expected prev operands atoms) := by
  fun_induction gate vars expected prev operands atoms with
  | case1 => exact .ok (List.forall_mem_nil _)
  | case2 _ _ atom _ => exact .error (.atom (h List.mem_cons_self))
  | case3 prev operands atom _ digits rest _ literal ih =>
    have hdigits : digits ∈ all := h (List.mem_cons_of_mem atom List.mem_cons_self)
    have hrest : rest ⊆ all := fun a ha => h (by simp [ha])
    refine ((admitNumber_blames literal expected operands).mono (fun e he => ?_)
      fun _ ht => ht).bind fun _ _ => (ih hrest).bind fun r hr => .pure ?_
    · rw [he]
      exact .negated hdigits
    · exact List.forall_mem_cons.2 ⟨.negated hdigits, hr⟩
  | case4 _ _ atom _ _ _ _ => exact .error (.atom (h List.mem_cons_self))
  | case5 _ _ atom _ _ _ => exact .error (.atom (h List.mem_cons_self))
  | case6 prev operands atom rest _ role _ ih =>
    obtain ⟨hatom, hrest⟩ := List.cons_subset.1 h
    refine ((pass_blames vars expected operands role atom).mono (fun e he => ?_)
      fun _ ht => ht).bind fun admission _ => (ih admission hrest).bind fun r hr => .pure ?_
    · rw [he]
      exact .atom hatom
    · exact List.forall_mem_cons.2 ⟨.atom hatom, hr⟩

theorem acceptFrom_blames {items : List Item} (h : ∀ i ∈ items, Blamed all i.text) (mode : Mode)
    (depth : Nat) :
    Confined (fun e => Blamed all e.blame) (fun _ => True) (acceptFrom mode depth items) := by
  induction items generalizing mode depth with
  | nil =>
    rw [acceptFrom]
    exact .ite (fun _ => .error .opening) fun _ =>
      .ite (fun _ => .ok trivial) fun _ => .error .nothing
  | cons i items ih =>
    obtain ⟨hi, hitems⟩ := List.forall_mem_cons.1 h
    rw [acceptFrom]
    split
    · exact .error hi
    · split
      · exact ih hitems _ _
      · exact .ite (fun _ => .error hi) fun _ => ih hitems _ _
      · exact ih hitems _ _

theorem finish_blames (expected : ValueType) {items : List Item}
    (h : ∀ i ∈ items, Blamed all i.text) :
    Confined (fun e => Blamed all e.blame) (fun _ => True) (finish expected items) := by
  unfold finish
  split
  · exact .ite (fun _ => .ok trivial) fun _ => .error .nothing
  · split
    · rename_i i hi
      exact .error (h i (List.mem_of_find?_eq_some hi))
    · exact .ok trivial
  · exact .ok trivial

end

theorem check_blames (vars : Variables) (expr : String) (expected : ValueType) :
    Confined (fun e => Blamed (cut expr) e.blame) (fun _ => True) (check vars expr expected) := by
  refine .ite (fun _ => .error .nothing) fun _ => .ite (fun _ => .error .nothing) fun _ => ?_
  refine (gate_blames vars expected (List.Subset.refl _)).bind fun r hr => ?_
  exact (acceptFrom_blames hr .start 0).bind fun _ _ =>
    (finish_blames expected hr).bind fun _ _ => .pure trivial

end Expression

/-! ## Conditions -/

namespace Condition

/-- A fault blames some tokens, joined by spaces; one token is blamed alone. -/
def Fault.Cites (tokens : List String) (e : Fault) : Prop :=
  ∃ ws, ws ⊆ tokens ∧ e.blame = spaced ws

section

variable {tokens : List String} {e : Fault}

theorem Fault.Cites.nothing (h : e.blame = "") : e.Cites tokens :=
  ⟨[], List.nil_subset tokens, h⟩

theorem Fault.Cites.token {t : String} (ht : t ∈ tokens) (h : e.blame = t) :
    e.Cites tokens := by
  refine ⟨[t], List.cons_subset.2 ⟨ht, List.nil_subset tokens⟩, ?_⟩
  rw [h, spaced, String.intercalate_singleton]

theorem relation_blames :
    Confined (Fault.Cites tokens)
      (fun r => r.left ⊆ tokens ∧ r.operator ∈ tokens ∧ r.right ⊆ tokens) (relation tokens) := by
  unfold relation
  split
  · exact .error (.nothing rfl)
  · rename_i i hi
    obtain ⟨hlt, -, -⟩ := List.findIdx?_eq_some_iff_getElem.1 hi
    have hmem : tokens.getD i "" ∈ tokens := by
      rw [List.getD_eq_getElem?_getD, List.getElem?_eq_getElem hlt]
      exact List.getElem_mem hlt
    exact .ite (fun _ => .error (.token hmem rfl)) fun _ =>
      .ok ⟨List.take_subset i tokens, hmem, List.drop_subset (i + 1) tokens⟩

section

variable (vars : Variables) {t : String} (ht : t ∈ tokens)

include ht

theorem variableOf_blames (expected : ValueType) :
    Confined (Fault.Cites tokens) (fun _ => True) (variableOf vars expected t) := by
  unfold variableOf
  split
  · exact .error (.token ht rfl)
  · exact .ite (fun _ => .ok trivial) fun _ => .error (.token ht rfl)

theorem booleanOperand_blames :
    Confined (Fault.Cites tokens) (fun _ => True) (booleanOperand vars t) :=
  .ite (fun _ => .ok trivial) fun _ =>
    .ite (fun _ => variableOf_blames vars ht .boolean) fun _ => .error (.token ht rfl)

theorem numericOperand_blames :
    Confined (Fault.Cites tokens) (fun _ => True) (numericOperand vars t) := by
  refine .ite (fun _ => .error (.token ht rfl)) fun _ => .ite (fun _ => .ok trivial) fun _ =>
    .ite (fun _ => ?_) fun _ => .error (.token ht rfl)
  split
  · exact .error (.token ht rfl)
  · exact .ite (fun _ => .ok trivial) fun _ => .error (.token ht rfl)

theorem operandType_blames :
    Confined (Fault.Cites tokens) (fun _ => True) (operandType vars t) := by
  refine .ite (fun _ => .ok trivial) fun _ => .ite (fun _ => .ok trivial) fun _ =>
    .ite (fun _ => .ok trivial) fun _ => .ite (fun _ => ?_) fun _ => .error (.token ht rfl)
  split
  · exact .error (.token ht rfl)
  · exact .ok trivial

end

section

variable (vars : Variables) {part : List String} (h : part ⊆ tokens)

include h

theorem checkBoolean_blames :
    Confined (Fault.Cites tokens) (fun _ => True) (checkBoolean vars part) := by
  unfold checkBoolean
  split
  · exact booleanOperand_blames vars (h List.mem_cons_self)
  · rename_i operator b
    have hoperator : operator ∈ tokens := h (by simp)
    refine (booleanOperand_blames vars (h List.mem_cons_self)).bind fun _ _ => ?_
    exact .ite (fun _ => booleanOperand_blames vars (h (by simp))) fun _ =>
      .error (.token hoperator rfl)
  · exact .error (.nothing rfl)

theorem operands_blames : Confined (Fault.Cites tokens) (fun _ => True) (operands vars part) := by
  fun_induction operands vars part with
  | case1 => exact .ok trivial
  | case2 a => exact numericOperand_blames vars (h List.mem_cons_self)
  | case3 a operator rest ih =>
    refine (numericOperand_blames vars (h List.mem_cons_self)).bind fun _ _ => ?_
    have hoperator : operator ∈ tokens := h (by simp)
    refine .ite (fun _ => .error (.token hoperator rfl)) fun _ =>
      .ite (fun _ => .error (.token hoperator rfl)) fun _ => ?_
    exact ih fun b hb => h (by simp [hb])

theorem arithmeticSide_blames (side : Side) :
    Confined (Fault.Cites tokens) (fun _ => True) (arithmeticSide vars side part) :=
  .ite (fun _ => .error (.nothing rfl)) fun _ => operands_blames vars h

end

theorem checkText_blames (vars : Variables) :
    Confined (Fault.Cites tokens) (fun _ => True) (checkText vars tokens) := by
  refine relation_blames.bind fun r hr => ?_
  obtain ⟨hleft, hoperator, hright⟩ := hr
  refine .ite (fun _ => .error (.token hoperator rfl)) fun _ => ?_
  split
  · rename_i a ha
    have ha : a ∈ tokens := hleft (ha ▸ List.mem_cons_self)
    refine .ite (fun _ => ?_) fun _ => .error (.token ha rfl)
    refine (variableOf_blames vars ha .text).bind fun _ _ => ?_
    split
    · rename_i b hb
      have hb : b ∈ tokens := hright (hb ▸ List.mem_cons_self)
      exact .ite (fun _ => .ok trivial) fun _ =>
        .ite (fun _ => variableOf_blames vars hb .text) fun _ => .error (.token hb rfl)
    · exact .error ⟨r.right, hright, rfl⟩
  · exact .error ⟨r.left, hleft, rfl⟩

theorem checkTokens_blames (vars : Variables) (type : ValueType) :
    Confined (Fault.Cites tokens) (fun _ => True) (checkTokens vars type tokens) := by
  have hnumeric : Confined (Fault.Cites tokens) (fun _ => True) (checkNumeric vars tokens) :=
    relation_blames.bind fun r hr => (arithmeticSide_blames vars hr.1 .left).bind fun _ _ =>
      arithmeticSide_blames vars hr.2.2 .right
  cases type with
  | boolean => exact checkBoolean_blames vars (List.Subset.refl tokens)
  | integer => exact hnumeric
  | decimal => exact hnumeric
  | text => exact checkText_blames vars
  | _ => exact .error (.nothing rfl)

end

theorem check_blames (vars : Variables) (cond : String) :
    Confined (Fault.Cites (tokenize cond)) (fun _ => True) (check vars cond) := by
  unfold check
  split
  · exact .error (.nothing rfl)
  · rename_i first rest htokens
    rw [htokens]
    exact (operandType_blames vars List.mem_cons_self).bind fun type _ =>
      checkTokens_blames vars type

end Condition

/-! ## Statements -/

namespace Statement

/-- The texts that a statement with given tokens can be blamed for. The fixed words are blamed
without a look at where they stand. -/
inductive Blamed (tokens : List Token) : String → Prop
  | nothing : Blamed tokens ""
  | token {t : Token} (h : t ∈ tokens) : Blamed tokens t.text
  | add : Blamed tokens "add"
  | start : Blamed tokens "from"
  | comma : Blamed tokens ","
  | opening : Blamed tokens "("
  | value {part : List Token} {b : String} (h : part ⊆ tokens)
      (hb : Expression.Blamed (Expression.cut (Token.join part)) b) : Blamed tokens b
  | condition {part : List Token} {ws : List String} (h : part ⊆ tokens)
      (hws : ws ⊆ tokenize (Token.join part)) : Blamed tokens (spaced ws)

/-- A fault blames what comes from given tokens. -/
def Fault.Cites (tokens : List Token) (fault : Fault) : Prop := Blamed tokens fault.blame

/-- The computation fails only with faults that blame what comes from given tokens. -/
def Cites {α : Type} (tokens : List Token) (x : Except Fault α) : Prop :=
  Confined (Fault.Cites tokens) (fun _ => True) x

section

variable {tokens : List Token} (scope : Scope)

theorem value_blames {part : List Token} (h : part ⊆ tokens) (place : Place)
    (expected : ValueType) : Cites tokens (value scope place (Token.join part) expected) := by
  have hcheck := Expression.check_blames scope.visible (Token.join part) expected
  unfold value
  split
  · rename_i fault hfault
    rw [hfault] at hcheck
    exact .error (.value h hcheck.of_error)
  · exact .ok trivial

theorem condition_blames {part : List Token} (h : part ⊆ tokens) (header : Header) :
    Cites tokens (condition scope header part) := by
  refine .ite (fun _ => .error .nothing) fun _ => ?_
  have hcheck := Condition.check_blames scope.visible (Token.join part)
  dsimp only
  split
  · rename_i fault hfault
    rw [hfault] at hcheck
    obtain ⟨ws, hws, hblame⟩ := hcheck.of_error
    refine .error ?_
    rw [Fault.Cites, Fault.blame, hblame]
    exact .condition h hws
  · exact .ok trivial

/-! ### Calls -/

theorem callBody_blames {part : List Token} (h : part ⊆ tokens) {name : String}
    (hname : Blamed tokens name) :
    Confined (Fault.Cites tokens) (fun body => body ⊆ tokens) (callBody name part) := by
  unfold callBody
  split
  · exact .error hname
  · refine .ite (fun _ => .error hname) fun _ => ?_
    split
    · exact .error .opening
    · split
      · refine .ok (List.Subset.trans ?_ h)
        exact List.Subset.trans (List.drop_subset 1 _) (List.take_subset _ _)
      · rename_i c _ _ extra more hdrop
        refine .error (.token (h (List.drop_subset (c + 1) _ ?_)))
        rw [hdrop]
        exact List.mem_cons_self

theorem call_blames {part : List Token} (h : part ⊆ tokens) :
    Confined (Fault.Cites tokens) (fun c => Blamed tokens c.callee.name) (call scope part) := by
  unfold call
  split
  · exact .error .nothing
  · rename_i nameToken rest
    obtain ⟨hname, hrest⟩ := List.cons_subset.1 h
    refine .ite (fun _ => .error (.token hname)) fun _ => ?_
    split
    · exact .error (.token hname)
    · rename_i f hf
      refine (callBody_blames hrest (.token hname)).bind fun body hbody => ?_
      split
      · exact .error .comma
      · rename_i args hargs
        refine .ite (fun _ => .error (.token hname)) fun _ => ?_
        have hcodes : Cites tokens (argumentCodes scope f args) := by
          refine (Confined.mapM (R := fun _ => True) fun x hx => ?_).mono (fun _ he => he)
            fun _ _ => trivial
          refine value_blames scope (fun t ht => hbody ?_) _ _
          have hflat : t ∈ args.flatten := List.mem_flatten.2 ⟨x.1, (List.of_mem_zip hx).1, ht⟩
          exact (arguments?_sublist hargs).subset hflat
        refine hcodes.bind fun _ _ => .pure ?_
        rw [Scope.name_of_function? hf]
        exact .token hname

theorem valueOrCall_blames (place : Place) (receiver : Receiver) (expected : ValueType)
    {first : Token} {rest : List Token} (h : first :: rest ⊆ tokens) :
    Cites tokens (valueOrCall scope place receiver expected first rest) := by
  refine .ite (fun _ => ?_) fun _ => value_blames scope h place expected
  refine (call_blames scope (List.cons_subset.1 h).2).bind fun c hc => ?_
  refine .ite (fun _ => ?_) fun _ => .ite (fun _ => ?_) fun _ => .ite (fun _ => .pure trivial)
    fun _ => .pure trivial
  · cases receiver with
    | caller => exact .error hc
    | place x => exact .error hc
  · cases receiver with
    | caller => exact .error hc
    | place x => exact .error hc

/-! ### Statements without a block -/

theorem declaration_blames (tokens : List Token) : Cites tokens (declaration scope tokens) := by
  unfold declaration
  split
  · rename_i lead typeToken nameToken rest
    have htype : typeToken ∈ lead :: typeToken :: nameToken :: rest := by simp
    have hname : nameToken ∈ lead :: typeToken :: nameToken :: rest := by simp
    refine .ite (fun _ => .error (.token htype)) fun _ =>
      .ite (fun _ => .error (.token hname)) fun _ =>
      .ite (fun _ => .error (.token htype)) fun _ =>
      .ite (fun _ => .error (.token hname)) fun _ =>
      .ite (fun _ => .error (.token hname)) fun _ => ?_
    refine Confined.bind (R := fun _ => True) ?_ fun _ _ => .pure trivial
    unfold initialValue
    split
    · exact .ok trivial
    · rename_i eq rest
      refine .ite (fun _ => .error (.token (by simp))) fun _ => ?_
      split
      · exact .error .nothing
      · refine (valueOrCall_blames scope _ _ _ fun t ht => ?_).bind fun _ _ => .pure trivial
        exact List.mem_cons_of_mem _ (List.mem_cons_of_mem _ (List.mem_cons_of_mem _
          (List.mem_cons_of_mem _ ht)))
  · exact .error .nothing

theorem assignment_blames (tokens : List Token) : Cites tokens (assignment scope tokens) := by
  unfold assignment
  split
  · rename_i nameToken eq first rest
    refine .ite (fun _ => .error (.token List.mem_cons_self)) fun _ => ?_
    split
    · exact .error (.token List.mem_cons_self)
    · refine .ite (fun _ => .error (.token (by simp))) fun _ => ?_
      refine (valueOrCall_blames scope _ _ _ fun t ht => ?_).bind fun _ _ => .pure trivial
      exact List.mem_cons_of_mem _ (List.mem_cons_of_mem _ ht)
  · exact .error .nothing

theorem printable_blames {t : Token} (ht : t ∈ tokens) : Cites tokens (printable scope t) := by
  unfold printable
  split
  · exact .ok trivial
  · exact .ok trivial
  · exact .ok trivial
  · exact .ite (fun _ => .error (.token ht)) fun _ => .ite (fun _ => .ok trivial) fun _ =>
      .error (.token ht)
  · exact .error (.token ht)

theorem printedValues_blames {part : List Token} (h : part ⊆ tokens) :
    Cites tokens (printedValues scope part) := by
  fun_induction printedValues scope part with
  | case1 => exact .error .add
  | case2 t => exact (printable_blames scope (h List.mem_cons_self)).bind fun _ _ => .pure trivial
  | case3 t sep rest ih =>
    refine (printable_blames scope (h List.mem_cons_self)).bind fun _ _ => ?_
    refine .ite (fun _ => .error (.token (h (by simp)))) fun _ => ?_
    exact (ih fun u hu => h (by simp [hu])).bind fun _ _ => .pure trivial

theorem printStatement_blames (tokens : List Token) :
    Cites tokens (printStatement scope tokens) := by
  unfold printStatement
  split
  · refine (printedValues_blames scope fun t ht => ?_).bind fun _ _ => .pure trivial
    exact List.mem_cons_of_mem _ ht
  · exact .error .nothing

/-! ### Headers of blocks -/

theorem headerTokens_blames (header : Header) (start : Nat) (tokens : List Token) :
    Confined (Fault.Cites tokens) (fun inner => inner ⊆ tokens)
      (headerTokens header start tokens) := by
  unfold headerTokens
  split
  · exact .error .nothing
  · split
    · rename_i brace _ _ extra more hdrop
      refine .error (.token (List.drop_subset (brace + 1) tokens ?_))
      rw [hdrop]
      exact List.mem_cons_self
    · exact .ok (List.Subset.trans (List.drop_subset start _) (List.take_subset _ tokens))

theorem forLoop_blames (tokens : List Token) : Cites tokens (forLoop scope tokens) := by
  unfold forLoop
  split
  · refine .ite (fun _ => .error .nothing) fun _ => ?_
    refine (headerTokens_blames _ _ tokens).bind fun bounds hbounds => ?_
    refine .ite (fun _ => .error .nothing) fun _ => .ite (fun _ => .error .start) fun _ => ?_
    refine (value_blames scope ?_ _ _).bind fun _ _ => (value_blames scope ?_ _ _).bind fun _ _ =>
      .pure trivial
    · exact List.Subset.trans (List.take_subset _ _) hbounds
    · exact List.Subset.trans (List.drop_subset _ _) hbounds
  · exact .error .nothing

theorem whileLoop_blames (tokens : List Token) : Cites tokens (whileLoop scope tokens) := by
  refine .ite (fun _ => .error .nothing) fun _ => ?_
  exact (headerTokens_blames _ _ tokens).bind fun inner hinner =>
    (condition_blames scope hinner _).bind fun _ _ => .pure trivial

theorem loop_blames (tokens : List Token) : Cites tokens (loop scope tokens) := by
  unfold loop
  split
  · exact .ite (fun _ => forLoop_blames scope _) fun _ => .ite (fun _ => whileLoop_blames scope _)
      fun _ => .error (.token (by simp))
  · exact .error .nothing

theorem ifStatement_blames (tokens : List Token) : Cites tokens (ifStatement scope tokens) :=
  (headerTokens_blames _ _ tokens).bind fun _ hinner =>
    (condition_blames scope hinner _).bind fun _ _ => .pure trivial

/-! ### Functions -/

theorem param_blames {typeToken nameToken : Token} (htype : typeToken ∈ tokens)
    (hname : nameToken ∈ tokens) : Cites tokens (param scope typeToken nameToken) :=
  .ite (fun _ => .error (.token htype)) fun _ => .ite (fun _ => .error (.token htype)) fun _ =>
    .ite (fun _ => .error (.token hname)) fun _ => .ite (fun _ => .error (.token hname)) fun _ =>
    .ok trivial

theorem params_blames {first : Bool} {part : List Token} (h : part ⊆ tokens) {fault : Fault}
    (hfault : (params scope first part).fault? = some fault) : fault.Cites tokens := by
  fun_induction params scope first part with
  | case1 => cases hfault
  | case2 scope first t _ =>
    cases hfault
    exact .comma
  | case3 scope first t _ =>
    cases hfault
    exact .token (h List.mem_cons_self)
  | case4 scope first a b _ =>
    cases hfault
    exact .token (h (by simp))
  | case5 scope first a b _ c rest fault' hparam =>
    cases hfault
    have hparams := param_blames scope (h (by simp) : b ∈ tokens) (h (by simp) : c ∈ tokens)
    rw [hparam] at hparams
    exact hparams.of_error
  | case6 scope first a b _ c rest p _ more ih =>
    exact ih (fun t ht => h (by simp [ht])) hfault
  | case7 scope first a b rest _ fault' hparam =>
    cases hfault
    have hparams := param_blames scope (h List.mem_cons_self) (h (by simp) : b ∈ tokens)
    rw [hparam] at hparams
    exact hparams.of_error
  | case8 scope first a b rest _ p _ more ih =>
    exact ih (fun t ht => h (by simp [ht])) hfault

theorem functionHeader_blames (tokens : List Token) :
    Confined (Fault.Cites tokens)
      (fun h => Blamed tokens h.name ∧ h.paramTokens ⊆ tokens) (functionHeader tokens) := by
  unfold functionHeader
  split
  · rename_i lead typeToken nameToken paren rest
    split
    · rename_i brace close inner hreverse
      have hrest : ∀ t ∈ brace :: close :: inner,
          t ∈ lead :: typeToken :: nameToken :: paren :: rest := by
        intro t ht
        rw [← hreverse, List.mem_reverse] at ht
        simp [ht]
      have hname : Blamed (lead :: typeToken :: nameToken :: paren :: rest) nameToken.text :=
        .token (by simp)
      refine .ite (fun _ => .error (.token (by simp))) fun _ =>
        .ite (fun _ => .error hname) fun _ =>
        .ite (fun _ => .error (.token (by simp))) fun _ =>
        .ite (fun _ => .error (.token (hrest close (by simp)))) fun _ =>
        .ite (fun _ => .error (.token (hrest brace (by simp)))) fun _ => .ok ⟨hname, ?_⟩
      intro t ht
      exact hrest t (by simp [List.mem_reverse.1 ht])
    · exact .error .nothing
  · exact .error .nothing

theorem definition_blames (st : State) (tokens : List Token) :
    Cites tokens (definition st tokens).2 := by
  have hheader := functionHeader_blames tokens
  unfold definition
  split
  · rename_i fault hfault
    rw [hfault] at hheader
    exact .error hheader.of_error
  · rename_i header hok
    rw [hok] at hheader
    cases hheader with
    | ok hparts =>
      dsimp only
      split
      · exact .error hparts.1
      · split
        · rename_i fault hfault
          exact .error (params_blames _ hparts.2 hfault)
        · split
          · exact .error hparts.1
          · exact .ok trivial

theorem returnStatement_blames (st : State) (tokens : List Token) :
    Cites tokens (returnStatement st tokens) := by
  have hlead : Blamed tokens ((tokens.head?.map (·.text)).getD "") := by
    cases tokens with
    | nil => exact .nothing
    | cons t ts => exact .token List.mem_cons_self
  have htail : tokens.drop 1 ⊆ tokens := List.drop_subset 1 tokens
  unfold returnStatement
  dsimp only
  split
  · exact .error hlead
  · split
    · exact .error .nothing
    · split
      · exact .ok trivial
      · rename_i t ts _ hdrop
        exact .error (.token (htail (hdrop ▸ List.mem_cons_self)))
      · exact .error hlead
      · rename_i first rest hdrop _
        refine (valueOrCall_blames st.scope _ _ _ ?_).bind fun _ _ => .pure trivial
        rwa [hdrop] at htail

/-- A statement that is refused blames what comes from its tokens. -/
theorem perform_blames {st st' : State} {kind : Kind} {tokens : List Token} {fault : Fault}
    (h : perform st kind tokens = some ⟨st', .error fault⟩) : Blamed tokens fault.blame := by
  have herror : ∀ {α : Type} {x : Except Fault α}, Cites tokens x → x = .error fault →
      Blamed tokens fault.blame := fun hx hfault => (hfault ▸ hx).of_error
  have hline : ∀ {x : Except Fault String}, Cites tokens x →
      Outcome.ofLine st x = ⟨st', .error fault⟩ → Blamed tokens fault.blame := by
    intro x hx hout
    cases x with
    | error e =>
      cases hout
      exact hx.of_error
    | ok line => cases hout
  cases kind with
  | create =>
    have hblames := declaration_blames st.scope tokens
    simp only [perform, Option.some.injEq] at h
    split at h
    · rename_i fault' hfault
      cases h
      exact herror hblames hfault
    · cases h
  | identifier => exact hline (assignment_blames st.scope tokens) (Option.some.inj h)
  | print => exact hline (printStatement_blames st.scope tokens) (Option.some.inj h)
  | loop => exact herror (loop_blames st.scope tokens) (congrArg Outcome.result (Option.some.inj h))
  | check =>
    exact herror (ifStatement_blames st.scope tokens) (congrArg Outcome.result (Option.some.inj h))
  | define =>
    exact herror (definition_blames st tokens) (congrArg Outcome.result (Option.some.inj h))
  | giveBack =>
    have hblames := returnStatement_blames st tokens
    simp only [perform, Option.some.injEq] at h
    split at h
    · rename_i fault' hfault
      cases h
      exact herror hblames hfault
    · cases h
  | call =>
    refine hline ?_ (Option.some.inj h)
    exact (call_blames st.scope (List.drop_subset 1 tokens)).bind fun _ _ => .pure trivial
  | _ => cases h

end

end Statement

end Courtesy
