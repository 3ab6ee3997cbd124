import Courtesy.Proofs.Requoting

/-!
# Values that differ in their literals

Checking two expressions, or two conditions, that differ in the contents of their string literals
ends alike: both are accepted, or both are refused with faults of the same category
(`Expression.check_requoted`, `Condition.check_requoted`).

`Together` carries two computations along: they fail with related faults, or both succeed with
related values. The checks branch on what a literal cannot change, so one lemma for each function
says that it keeps the two together.
-/

namespace Courtesy

open Text List

/-! ## Two computations side by side -/

/-- Both computations fail with related faults, or both succeed with related values. -/
inductive Together {ε α β : Type} (E : ε → ε → Prop) (R : α → β → Prop) :
    Except ε α → Except ε β → Prop
  | error {e e' : ε} (h : E e e') : Together E R (.error e) (.error e')
  | ok {a : α} {b : β} (h : R a b) : Together E R (.ok a) (.ok b)

namespace Together

variable {ε α β α' β' : Type} {E : ε → ε → Prop} {R : α → β → Prop} {S : α' → β' → Prop}

theorem pure {a : α} {b : β} (h : R a b) :
    Together E R (Pure.pure a : Except ε α) (Pure.pure b : Except ε β) := .ok h

theorem bind {x : Except ε α} {y : Except ε β} {f : α → Except ε α'} {g : β → Except ε β'}
    (h : Together E R x y) (hf : ∀ a b, R a b → Together E S (f a) (g b)) :
    Together E S (x >>= f) (y >>= g) := by
  cases h with
  | error he => exact .error he
  | ok hab => exact hf _ _ hab

theorem of_eq (hE : ∀ e, E e e) {R : α → α → Prop} (hR : ∀ a, R a a) (x : Except ε α) :
    Together E R x x := by
  cases x with
  | error e => exact .error (hE e)
  | ok a => exact .ok (hR a)

theorem of_error {e : ε} {y : Except ε β} (h : Together E R (.error e : Except ε α) y) :
    ∃ e', y = .error e' ∧ E e e' := by
  cases h with
  | error he => exact ⟨_, rfl, he⟩

theorem of_ok {a : α} {y : Except ε β} (h : Together E R (.ok a) y) : ∃ b, y = .ok b ∧ R a b := by
  cases h with
  | ok hab => exact ⟨_, rfl, hab⟩

theorem ite {c : Prop} [Decidable c] {x x' : Except ε α} {y y' : Except ε β}
    (h : c → Together E R x y) (h' : ¬ c → Together E R x' y') :
    Together E R (if c then x else x') (if c then y else y') := by
  by_cases hc : c
  · rw [if_pos hc, if_pos hc]
    exact h hc
  · rw [if_neg hc, if_neg hc]
    exact h' hc

theorem mapM {Q : α' → β' → Prop} {xs : List α'} {ys : List β'} {f : α' → Except ε α}
    {g : β' → Except ε β} (h : Forall₂ Q xs ys) (hf : ∀ a b, Q a b → Together E R (f a) (g b)) :
    Together E (Forall₂ R) (xs.mapM f) (ys.mapM g) := by
  induction h with
  | nil => exact .pure .nil
  | cons hab _ ih =>
    rw [List.mapM_cons, List.mapM_cons]
    exact (hf _ _ hab).bind fun _ _ ha => ih.bind fun _ _ has => .pure (.cons ha has)

end Together

namespace Text

variable {α β : Type} {R : α → β → Prop} {xs : List α} {ys : List β}

theorem forall₂_isEmpty (h : Forall₂ R xs ys) : ys.isEmpty = xs.isEmpty := by
  cases h <;> rfl

theorem forall₂_getD {a : α} {b : β} (hab : R a b) (h : Forall₂ R xs ys) (i : Nat) :
    R (xs.getD i a) (ys.getD i b) := by
  induction h generalizing i with
  | nil => exact hab
  | cons hx _ ih =>
    cases i with
    | zero => exact hx
    | succ i => exact ih i

variable {p : α → Bool} {q : β → Bool} (hpq : ∀ a b, R a b → p a = q b) (h : Forall₂ R xs ys)

include hpq h

theorem forall₂_any : ys.any q = xs.any p := by
  induction h with
  | nil => rfl
  | cons hab _ ih => rw [List.any_cons, List.any_cons, hpq _ _ hab, ih]

theorem forall₂_find? : Option.Rel R (xs.find? p) (ys.find? q) := by
  induction h with
  | nil => exact .none
  | @cons a b xs ys hab _ ih =>
    rw [List.find?_cons, List.find?_cons, hpq a b hab]
    cases q b with
    | true => exact .some hab
    | false => exact ih

theorem forall₂_findIdx? : ys.findIdx? q = xs.findIdx? p := by
  induction h with
  | nil => rfl
  | cons hab _ ih => rw [List.findIdx?_cons, List.findIdx?_cons, hpq _ _ hab, ih]

end Text

/-! ## Expressions -/

/-- A wording around a text that may hold literals. -/
theorem Category.ofWording_around {t t' lead tail : String} (h : Requoted t.toList t'.toList)
    (hlead : Plain lead.toList) (htail : Plain tail.toList) :
    ofWording (lead ++ t ++ tail) = ofWording (lead ++ t' ++ tail) := by
  apply ofWording_requoted
  simp only [String.toList_append]
  exact (h.plain_append hlead).append (.plain htail)

theorem Category.ofWording_behind {t t' lead : String} (h : Requoted t.toList t'.toList)
    (hlead : Plain lead.toList) : ofWording (lead ++ t) = ofWording (lead ++ t') := by
  apply ofWording_requoted
  simp only [String.toList_append]
  exact h.plain_append hlead

namespace Expression

/-- Faults whose wordings are of the same category. -/
def Fault.SameCategory (e e' : Fault) : Prop :=
  Category.ofWording e.message = Category.ofWording e'.message

theorem Fault.SameCategory.refl (e : Fault) : e.SameCategory e := rfl

/-- Items of one role that differ at most in the content of a string literal. -/
structure Item.Swapped (i i' : Item) : Prop where
  role : i'.role = i.role
  text : Text.Swapped i.text i'.text

theorem isSignAfter_swapped {a a' : String} (h : Text.Swapped a a') :
    isSignAfter (some a') = isSignAfter (some a) := by
  rw [isSignAfter, isSignAfter, h.isArithmetic_eq, h.beq_eq (by decide)]

theorem eq_of_sign {a a' : String} (h : Text.Swapped a a') {prev : Option String}
    (hsign : (a == "sub" && isSignAfter prev) = true) : a' = a := by
  have hsub : a = "sub" := by simpa using (Bool.and_eq_true_iff.1 hsign).1
  exact h.eq_of_isString (by rw [hsub]; decide)

theorem plain_of_isNumber {s : String} (h : Literal.isNumber s = true) : Plain s.toList := by
  intro hm
  rcases chars_of_isNumber h '"' hm with hc | hc | hc <;> cases hc

section

variable (vars : Variables) (expected : ValueType)

theorem pass_swapped (operands : Nat) {role : Role} {a a' : String} (h : Text.Swapped a a')
    (hrole : role? a = some role) :
    Together Fault.SameCategory Eq (pass vars expected operands role a)
      (pass vars expected operands role a') := by
  cases h with
  | plain _ => exact .of_eq .refl Eq.refl _
  | literal h =>
    rw [Literal.role?_ofContent h.oneLine] at hrole
    cases hrole
    refine Together.bind (R := Eq) ?_ fun _ _ _ => .pure rfl
    unfold admitString
    cases expected with
    | text => exact .ok rfl
    | boolean =>
      exact .error (Category.ofWording_around (Swapped.literal h).requoted (by decide) (by decide))
    | _ => exact .error rfl

theorem gate_swapped {prev prev' : Option String} {operands : Nat} {atoms atoms' : List String}
    (h : Forall₂ Text.Swapped atoms atoms') (hprev : isSignAfter prev' = isSignAfter prev) :
    Together Fault.SameCategory (fun r r' => Forall₂ Item.Swapped r.1 r'.1)
      (gate vars expected prev operands atoms) (gate vars expected prev' operands atoms') := by
  fun_induction gate vars expected prev operands atoms generalizing prev' atoms' with
  | case1 =>
    cases h
    rw [gate]
    exact .ok .nil
  | case2 prev operands t hsign =>
    obtain ⟨t', _, ht, hnil, rfl⟩ := forall₂_cons_left_iff.1 h
    cases hnil
    obtain rfl := eq_of_sign ht hsign
    rw [gate.eq_def vars expected prev']
    dsimp only
    rw [hprev, if_pos hsign]
    exact .error rfl
  | case3 prev operands t hsign digits rest hn =>
    rename_i ih
    obtain ⟨t', _, ht, hmore, rfl⟩ := forall₂_cons_left_iff.1 h
    obtain ⟨digits', rest', hdigits, hrest, rfl⟩ := forall₂_cons_left_iff.1 hmore
    -- the sign and the number behind it are no literals, so they are the same
    obtain rfl := eq_of_sign ht hsign
    obtain rfl := hdigits.eq_of_isNumber hn
    rw [gate.eq_def vars expected prev']
    dsimp only
    rw [hprev, if_pos hsign, if_pos hn]
    refine (Together.of_eq .refl Eq.refl _).bind fun _ _ _ => (ih hrest rfl).bind ?_
    rintro ⟨items, narrows⟩ ⟨items', narrows'⟩ hitems
    refine .pure (.cons ⟨rfl, .plain ?_⟩ hitems)
    rw [String.toList_append]
    exact plain_append.2 ⟨by decide, plain_of_isNumber hn⟩
  | case4 prev operands t hsign digits rest hn =>
    obtain ⟨t', _, ht, hmore, rfl⟩ := forall₂_cons_left_iff.1 h
    obtain ⟨digits', rest', hdigits, hrest, rfl⟩ := forall₂_cons_left_iff.1 hmore
    obtain rfl := eq_of_sign ht hsign
    rw [gate.eq_def vars expected prev']
    dsimp only
    rw [hprev, if_pos hsign, hdigits.isNumber_eq, if_neg hn]
    exact .error rfl
  | case5 prev operands t rest hsign hrole =>
    obtain ⟨t', rest', ht, hrest, rfl⟩ := forall₂_cons_left_iff.1 h
    rw [gate.eq_def vars expected prev']
    dsimp only
    rw [hprev, ht.beq_eq (by decide), if_neg hsign, ht.role?_eq, hrole]
    exact .error (Category.ofWording_behind ht.requoted (by decide))
  | case6 prev operands t rest hsign role hrole ih =>
    obtain ⟨t', rest', ht, hrest, rfl⟩ := forall₂_cons_left_iff.1 h
    rw [gate.eq_def vars expected prev']
    dsimp only
    rw [hprev, ht.beq_eq (by decide), if_neg hsign, ht.role?_eq, hrole]
    refine (pass_swapped vars expected operands ht hrole).bind ?_
    rintro admission _ rfl
    refine (ih admission hrest (isSignAfter_swapped ht)).bind ?_
    rintro ⟨items, narrows⟩ ⟨items', narrows'⟩ hitems
    exact .pure (.cons ⟨rfl, ht⟩ hitems)

end

theorem acceptFrom_swapped {items items' : List Item} (h : Forall₂ Item.Swapped items items')
    (mode : Mode) (depth : Nat) :
    Together Fault.SameCategory Eq (acceptFrom mode depth items)
      (acceptFrom mode depth items') := by
  induction h generalizing mode depth with
  | nil => exact .of_eq .refl Eq.refl _
  | @cons i i' items items' hi _ ih =>
    rw [acceptFrom, acceptFrom, hi.role]
    cases mode.next i.role with
    | none =>
      exact .error (Category.ofWording_around hi.text.requoted (by decide) (by decide))
    | some mode' =>
      dsimp only
      split
      · exact ih mode' (depth + 1)
      · exact .ite (fun _ => .error rfl) fun _ => ih mode' (depth - 1)
      · exact ih mode' depth

theorem finish_swapped (expected : ValueType) {items items' : List Item}
    (h : Forall₂ Item.Swapped items items') :
    Together Fault.SameCategory Eq (finish expected items) (finish expected items') := by
  unfold finish
  split
  · rw [h.length_eq]
    exact .of_eq .refl Eq.refl _
  · have hjoin (i i' : Item) (hi : i.Swapped i') :
        (i.role = .minus || i.role = .times || i.role = .over : Bool) =
          (i'.role = .minus || i'.role = .times || i'.role = .over) := by
      rw [hi.role]
    have hfind := forall₂_find? hjoin h
    generalize items.find? _ = found, items'.find? _ = found' at hfind ⊢
    cases hfind with
    | none => exact .ok rfl
    | some hi =>
      exact .error (Category.ofWording_around hi.text.requoted (by decide) (by decide))
  · exact .ok rfl

/-- Expressions that differ in the contents of their literals are checked alike. -/
theorem check_requoted (vars : Variables) {expr expr' : String}
    (h : Requoted expr.toList expr'.toList) (expected : ValueType) :
    Together Fault.SameCategory (fun _ _ => True) (check vars expr expected)
      (check vars expr' expected) := by
  have hcut := cut_requoted h
  have hempty := forall₂_isEmpty hcut
  unfold check
  dsimp only
  rw [hempty]
  refine .ite (fun _ => .error rfl) fun _ => .ite (fun _ => .error rfl) fun _ => ?_
  refine (gate_swapped vars expected hcut rfl).bind ?_
  rintro ⟨items, narrows⟩ ⟨items', narrows'⟩ hitems
  exact (acceptFrom_swapped hitems .start 0).bind fun _ _ _ =>
    (finish_swapped expected hitems).bind fun _ _ _ => .pure trivial

end Expression

/-! ## Conditions -/

namespace Condition

/-- Faults whose wordings are of the same category. -/
def Fault.SameCategory (e e' : Fault) : Prop :=
  Category.ofWording e.message = Category.ofWording e'.message

theorem Fault.SameCategory.refl (e : Fault) : e.SameCategory e := rfl

/-- Two relations with the same phrase, whose sides differ in the contents of literals. -/
structure Relation.Swapped (r r' : Relation) : Prop where
  left : Forall₂ Text.Swapped r.left r'.left
  operator : Text.Swapped r.operator r'.operator
  right : Forall₂ Text.Swapped r.right r'.right

section

variable {ts ts' : List String} (h : Forall₂ Text.Swapped ts ts')

include h

theorem relation_swapped :
    Together Fault.SameCategory Relation.Swapped (relation ts) (relation ts') := by
  have hindex : ts'.findIdx? Vocabulary.isRelational = ts.findIdx? Vocabulary.isRelational :=
    forall₂_findIdx? (fun _ _ ht => ht.isRelational_eq.symm) h
  have hcount : ts'.countP Vocabulary.isRelational = ts.countP Vocabulary.isRelational := by
    clear hindex
    induction h with
    | nil => rfl
    | cons ht _ ih => rw [List.countP_cons, List.countP_cons, ih, ht.isRelational_eq]
  unfold relation
  rw [hindex]
  cases ts.findIdx? Vocabulary.isRelational with
  | none => exact .error rfl
  | some i =>
    dsimp only
    rw [hcount]
    refine .ite (fun _ => .error rfl) fun _ => .ok ⟨forall₂_take i h, ?_, forall₂_drop (i + 1) h⟩
    exact forall₂_getD (.plain (by decide)) h i

end

section

variable (vars : Variables)

theorem booleanOperand_swapped {a a' : String} (h : Text.Swapped a a') :
    Together Fault.SameCategory Eq (booleanOperand vars a) (booleanOperand vars a') := by
  cases h with
  | plain _ => exact .of_eq .refl Eq.refl _
  | literal h =>
    unfold booleanOperand
    simp only [Literal.isBoolean_ofContent, Literal.isIdentifier_ofContent, Bool.false_eq_true]
    exact .error (Category.ofWording_around (Swapped.literal h).requoted (by decide) (by decide))

theorem checkBoolean_swapped {ts ts' : List String} (h : Forall₂ Text.Swapped ts ts') :
    Together Fault.SameCategory Eq (checkBoolean vars ts) (checkBoolean vars ts') := by
  rcases h with _ | ⟨ha, _ | ⟨ho, _ | ⟨hb, _ | _⟩⟩⟩
  · exact .error rfl
  · exact booleanOperand_swapped vars ha
  · exact .error rfl
  · refine (booleanOperand_swapped vars ha).bind fun _ _ _ => ?_
    rw [ho.isEquality_eq]
    refine .ite (fun _ => booleanOperand_swapped vars hb) fun _ => ?_
    exact .error (Category.ofWording_around ho.requoted (by decide) (by decide))
  · exact .error rfl

theorem numericOperand_swapped {a a' : String} (h : Text.Swapped a a') :
    Together Fault.SameCategory Eq (numericOperand vars a) (numericOperand vars a') := by
  cases h with
  | plain _ => exact .of_eq .refl Eq.refl _
  | literal h =>
    unfold numericOperand
    simp only [Literal.isArithmetic_ofContent, Literal.isNumber_ofContent,
      Literal.isIdentifier_ofContent, Bool.false_eq_true]
    exact .error (Category.ofWording_around (Swapped.literal h).requoted (by decide) (by decide))

theorem operands_swapped {ts ts' : List String} (h : Forall₂ Text.Swapped ts ts') :
    Together Fault.SameCategory Eq (operands vars ts) (operands vars ts') := by
  fun_induction operands vars ts generalizing ts' with
  | case1 =>
    cases h
    exact .ok rfl
  | case2 a =>
    obtain ⟨a', _, ha, hnil, rfl⟩ := forall₂_cons_left_iff.1 h
    cases hnil
    exact numericOperand_swapped vars ha
  | case3 a operator rest ih =>
    obtain ⟨a', _, ha, hmore, rfl⟩ := forall₂_cons_left_iff.1 h
    obtain ⟨operator', rest', ho, hrest, rfl⟩ := forall₂_cons_left_iff.1 hmore
    rw [operands]
    refine (numericOperand_swapped vars ha).bind fun _ _ _ => ?_
    rw [ho.isArithmetic_eq, forall₂_isEmpty hrest]
    refine .ite (fun _ => ?_) fun _ => .ite (fun _ => ?_) fun _ => ih hrest
    all_goals exact .error (Category.ofWording_around ho.requoted (by decide) (by decide))

theorem arithmeticSide_swapped (side : Side) {ts ts' : List String}
    (h : Forall₂ Text.Swapped ts ts') :
    Together Fault.SameCategory Eq (arithmeticSide vars side ts)
      (arithmeticSide vars side ts') := by
  unfold arithmeticSide
  rw [forall₂_isEmpty h]
  exact .ite (fun _ => .error rfl) fun _ => operands_swapped vars h

theorem checkNumeric_swapped {ts ts' : List String} (h : Forall₂ Text.Swapped ts ts') :
    Together Fault.SameCategory Eq (checkNumeric vars ts) (checkNumeric vars ts') :=
  (relation_swapped h).bind fun _ _ hr =>
    (arithmeticSide_swapped vars .left hr.left).bind fun _ _ _ =>
      arithmeticSide_swapped vars .right hr.right

theorem Fault.textSide_swapped (side : Side) {ts ts' : List String}
    (h : Forall₂ Text.Swapped ts ts') :
    (Fault.textSide side (spaced ts)).SameCategory (.textSide side (spaced ts')) := by
  have hlead : Plain s!"Invalid {side.name} side text operand: '".toList := by
    cases side <;> decide
  exact Category.ofWording_around (requoted_spaced h) hlead (by decide)

theorem checkText_swapped {ts ts' : List String} (h : Forall₂ Text.Swapped ts ts') :
    Together Fault.SameCategory Eq (checkText vars ts) (checkText vars ts') := by
  refine (relation_swapped h).bind fun r r' hr => ?_
  obtain ⟨left, operator, right⟩ := r
  obtain ⟨left', operator', right'⟩ := r'
  have hleft : Forall₂ Text.Swapped left left' := hr.left
  have hright : Forall₂ Text.Swapped right right' := hr.right
  dsimp only
  rw [hr.operator.isEquality_eq]
  refine .ite (fun _ => .error rfl) fun _ => ?_
  -- a side counts only when it is a single token
  rcases hleft with _ | ⟨ha, _ | _⟩
  · exact .error rfl
  · dsimp only
    rw [ha.isIdentifier_eq]
    refine .ite (fun hname => ?_) fun _ => .error ?_
    · rw [ha.eq_of_isIdentifier hname]
      refine (Together.of_eq .refl Eq.refl _).bind fun _ _ _ => ?_
      rcases hright with _ | ⟨hb, _ | _⟩
      · exact .error rfl
      · dsimp only
        rw [hb.isString_eq, hb.isIdentifier_eq]
        refine .ite (fun _ => .ok rfl) fun hs => ?_
        rw [hb.eq_of_isString (by simpa using hs)]
        exact .of_eq .refl Eq.refl _
      · exact .error (Fault.textSide_swapped .right (.cons ‹_› (.cons ‹_› ‹_›)))
    · exact Category.ofWording_around ha.requoted (by decide) (by decide)
  · exact .error (Fault.textSide_swapped .left (.cons ‹_› (.cons ‹_› ‹_›)))

theorem checkTokens_swapped (type : ValueType) {ts ts' : List String}
    (h : Forall₂ Text.Swapped ts ts') :
    Together Fault.SameCategory Eq (checkTokens vars type ts) (checkTokens vars type ts') := by
  cases type with
  | boolean => exact checkBoolean_swapped vars h
  | integer => exact checkNumeric_swapped vars h
  | decimal => exact checkNumeric_swapped vars h
  | text => exact checkText_swapped vars h
  | invalid => exact .error rfl
  | void => exact .error rfl

theorem operandType_swapped {a a' : String} (h : Text.Swapped a a') :
    Together Fault.SameCategory Eq (operandType vars a) (operandType vars a') := by
  cases h with
  | plain _ => exact .of_eq .refl Eq.refl _
  | literal h =>
    unfold operandType
    simp only [Literal.isBoolean_ofContent, Literal.isNumber_ofContent, Bool.false_eq_true,
      Literal.isString_ofContent h.oneLine, Literal.isString_ofContent h.oneLine']
    exact .ok rfl

/-- Conditions that differ in the contents of their literals are checked alike. -/
theorem check_requoted {cond cond' : String} (h : Requoted cond.toList cond'.toList) :
    Together Fault.SameCategory Eq (check vars cond) (check vars cond') := by
  have htokens := tokenize_requoted h
  unfold check
  generalize tokenize cond = ts, tokenize cond' = ts' at htokens ⊢
  rcases htokens with _ | ⟨ha, hrest⟩
  · exact .error rfl
  · refine (operandType_swapped vars ha).bind ?_
    rintro type _ rfl
    exact checkTokens_swapped vars type (.cons ha hrest)

end

end Condition

end Courtesy
