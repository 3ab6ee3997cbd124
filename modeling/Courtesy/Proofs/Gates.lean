import Courtesy.Proofs.Acceptor
import Courtesy.Proofs.Tokens

/-!
# What the gate lets through

An atom has a role by its shape (`HasRole`). The check of an expression is one pass over its atoms,
for every expected type. `Passes` is that pass as a relation with one rule for each way in which it
goes on: a sign with the number that it is folded into, or an atom with the role that it has.
`check_accepted` puts it together with the grammar of the acceptor, so that a statement about
accepted expressions is an induction on the one or on the other.
-/

namespace Courtesy

namespace Literal

/-- One or more digits. -/
def Digits (cs : List Char) : Prop := cs ≠ [] ∧ ∀ c ∈ cs, c.isDigit = true

/-- An optional minus sign, digits, and optionally a point with digits behind it. -/
def Numeral (s : String) : Prop :=
  ∃ sign whole fraction, s.toList = sign ++ (whole ++ fraction) ∧ (sign = [] ∨ sign = ['-']) ∧
    Digits whole ∧ (fraction = [] ∨ ∃ digits, fraction = '.' :: digits ∧ Digits digits)

theorem isDigits_iff {cs : List Char} : isDigits cs = true ↔ Digits cs := by
  simp [isDigits, Digits]

theorem unsigned_cases (cs : List Char) :
    ∃ sign, cs = sign ++ unsigned cs ∧ (sign = [] ∨ sign = ['-']) := by
  unfold unsigned
  split
  · exact ⟨['-'], rfl, .inr rfl⟩
  · exact ⟨[], rfl, .inl rfl⟩

theorem unsigned_append {sign whole : List Char} (hsign : sign = [] ∨ sign = ['-'])
    (hwhole : Digits whole) (rest : List Char) :
    unsigned (sign ++ (whole ++ rest)) = whole ++ rest := by
  rcases hsign with rfl | rfl
  · obtain ⟨hne, hall⟩ := hwhole
    cases whole with
    | nil => exact absurd rfl hne
    | cons c whole =>
      have hc : c ≠ '-' := by
        rintro rfl
        exact absurd (hall '-' List.mem_cons_self) (by decide)
      rw [List.nil_append, List.cons_append, unsigned]
      rintro cs ⟨rfl, -⟩
      exact hc rfl
  · rfl

theorem isNumber_iff {s : String} : isNumber s = true ↔ Numeral s := by
  constructor
  · intro h
    obtain ⟨sign, hs, hsign⟩ := unsigned_cases s.toList
    unfold isNumber numberShape? at h
    dsimp only at h
    split at h
    · cases h
    · rename_i hwhole
      have hdigits : Digits ((unsigned s.toList).takeWhile Char.isDigit) :=
        ⟨by simpa using hwhole, List.all_eq_true.1 List.all_takeWhile⟩
      refine ⟨sign, _, (unsigned s.toList).dropWhile Char.isDigit, ?_, hsign, hdigits, ?_⟩
      · rw [List.takeWhile_append_dropWhile]
        exact hs
      · split at h
        · rename_i hrest
          exact .inl hrest
        · rename_i fraction hrest
          split at h
          · rename_i hfraction
            exact .inr ⟨fraction, hrest, isDigits_iff.1 hfraction⟩
          · cases h
        · cases h
  · rintro ⟨sign, whole, fraction, hs, hsign, hwhole, hfraction⟩
    have hstop : ∀ c, fraction.head? = some c → c.isDigit = false := by
      intro c hc
      rcases hfraction with rfl | ⟨digits, rfl, -⟩
      · cases hc
      · cases hc
        rfl
    have htake : (whole ++ fraction).takeWhile Char.isDigit = whole := by
      rw [List.takeWhile_append_of_pos hwhole.2]
      cases fraction with
      | nil => simp
      | cons c fraction => simp [hstop c rfl]
    have hdrop : (whole ++ fraction).dropWhile Char.isDigit = fraction := by
      rw [List.dropWhile_append_of_pos hwhole.2]
      cases fraction with
      | nil => rfl
      | cons c fraction => simp [hstop c rfl]
    have hempty : whole.isEmpty = false := by simpa using hwhole.1
    unfold isNumber numberShape?
    rw [hs, unsigned_append hsign hwhole]
    dsimp only
    rw [htake, hdrop, hempty, if_neg Bool.false_ne_true]
    rcases hfraction with rfl | ⟨digits, rfl, hdigits⟩
    · rfl
    · change (if isDigits digits = true then some NumberShape.fractional else none).isSome = true
      rw [if_pos (isDigits_iff.2 hdigits)]
      rfl

end Literal

namespace Expression

open Literal (Numeral)

/-! ## Atoms and their roles -/

/-- The role of a token by its shape. -/
inductive HasRole : String → Role → Prop
  | number {n : String} (hn : Numeral n) : HasRole n .number
  | string {t : String} (ht : Literal.isString t = true) : HasRole t .string
  | boolean {t : String} (ht : Vocabulary.isBoolean t = true) : HasRole t .boolean
  | plus : HasRole "add" .plus
  | minus : HasRole "sub" .minus
  | times : HasRole "mul" .times
  | divided : HasRole "div" .over
  | opening : HasRole "(" .opening
  | closing : HasRole ")" .closing
  | name {x : String} (hx : Literal.isIdentifier x = true)
      (hfree : x ∉ ["add", "sub", "mul", "div", "true", "false"]) : HasRole x .var

theorem chars_of_isNumber {s : String} (h : Literal.isNumber s = true) :
    ∀ c ∈ s.toList, c.isDigit = true ∨ c = '-' ∨ c = '.' := by
  obtain ⟨sign, whole, fraction, hs, hsign, hwhole, hfraction⟩ := Literal.isNumber_iff.1 h
  intro c hc
  rw [hs, List.mem_append, List.mem_append] at hc
  rcases hc with hc | hc | hc
  · rcases hsign with rfl | rfl
    · cases hc
    · exact .inr (.inl (List.mem_singleton.1 hc))
  · exact .inl (hwhole.2 c hc)
  · rcases hfraction with rfl | ⟨digits, rfl, hdigits⟩
    · cases hc
    · rcases List.mem_cons.1 hc with rfl | hc
      · exact .inr (.inr rfl)
      · exact .inl (hdigits.2 c hc)

variable {t : String} {role : Role} {vars : Variables} {expected : ValueType}

theorem isNumber_of_isString (h : Literal.isString t = true) : Literal.isNumber t = false := by
  rw [Bool.eq_false_iff]
  intro hn
  unfold Literal.isString at h
  split at h
  · rename_i cs ht
    exact absurd (chars_of_isNumber hn '"' (by rw [ht]; exact List.mem_cons_self)) (by decide)
  · cases h

theorem isNumber_of_isIdentifier {x : String} (h : Literal.isIdentifier x = true) :
    Literal.isNumber x = false := by
  obtain ⟨c, cs, hx, hc, -⟩ := Literal.chars_of_isIdentifier h
  rw [Bool.eq_false_iff]
  intro hn
  rcases chars_of_isNumber hn c (by rw [hx]; exact List.mem_cons_self) with hd | rfl | rfl
  · rw [Text.isDigit_of_isWordStart hc] at hd
    cases hd
  · exact absurd hc (by decide)
  · exact absurd hc (by decide)

theorem isString_of_isIdentifier {x : String} (h : Literal.isIdentifier x = true) :
    Literal.isString x = false := by
  unfold Literal.isString
  split
  · rename_i cs hx
    have hquote : '"' ∈ x.toList := by
      rw [hx]
      exact List.mem_cons_self
    exact absurd (Literal.isWordChar_of_isIdentifier h _ hquote) (by decide)
  · rfl

theorem role?_of_isNumber (h : Literal.isNumber t = true) : role? t = some .number := by
  unfold role?
  rw [if_pos h]

theorem HasRole.role? (h : HasRole t role) : role? t = some role := by
  cases h with
  | number hn => exact role?_of_isNumber (Literal.isNumber_iff.2 hn)
  | string ht =>
    unfold Expression.role?
    rw [isNumber_of_isString ht, if_neg Bool.false_ne_true, if_pos ht]
  | boolean ht =>
    simp only [Vocabulary.isBoolean, Bool.or_eq_true, beq_iff_eq] at ht
    rcases ht with rfl | rfl <;> rfl
  | name hx hfree =>
    simp only [List.mem_cons, List.not_mem_nil, or_false, not_or] at hfree
    obtain ⟨hadd, hsub, hmul, hdiv, htrue, hfalse⟩ := hfree
    have hboolean : Vocabulary.isBoolean t = false := by
      simp [Vocabulary.isBoolean, htrue, hfalse]
    unfold Expression.role?
    rw [isNumber_of_isIdentifier hx, isString_of_isIdentifier hx, hboolean]
    simp only [Bool.false_eq_true, ↓reduceIte]
    split
    · exact absurd rfl hadd
    · exact absurd rfl hsub
    · exact absurd rfl hmul
    · exact absurd rfl hdiv
    · exact absurd hx (by decide)
    · exact absurd hx (by decide)
    · rw [if_pos hx]
  | _ => rfl

theorem hasRole_of_role? (h : role? t = some role) : HasRole t role := by
  unfold Expression.role? at h
  split at h
  · rename_i hn
    cases h
    exact .number (Literal.isNumber_iff.1 hn)
  · split at h
    · rename_i hs
      cases h
      exact .string hs
    · split at h
      · rename_i hb
        cases h
        exact .boolean hb
      · rename_i hb
        split at h
        · cases h; exact .plus
        · cases h; exact .minus
        · cases h; exact .times
        · cases h; exact .divided
        · cases h; exact .opening
        · cases h; exact .closing
        · split at h
          · rename_i hadd hsub hmul hdiv _ _ hx
            cases h
            have hbool : t ≠ "true" ∧ t ≠ "false" := by
              simpa [Vocabulary.isBoolean] using hb
            refine .name hx ?_
            simp only [List.mem_cons, List.not_mem_nil, or_false, not_or]
            exact ⟨hadd, hsub, hmul, hdiv, hbool⟩
          · cases h

/-- Whether `sub` behind a token of a role is a sign. -/
def Role.admitsSign : Role → Bool
  | .plus | .minus | .times | .over | .opening => true
  | _ => false

theorem isSignAfter_eq (h : role? t = some role) : isSignAfter (some t) = role.admitsSign := by
  rw [Bool.eq_iff_iff]
  constructor
  · intro hsign
    have hwords : ∀ w ∈ ["add", "sub", "mul", "div", "("],
        (Expression.role? w).all Role.admitsSign = true := by decide
    have ht : t ∈ ["add", "sub", "mul", "div", "("] := by
      rcases Bool.or_eq_true_iff.1 hsign with ha | hparen
      · obtain ⟨op, hop⟩ := Option.isSome_iff_exists.1 ha
        have hm := List.mem_map_of_mem (f := Prod.fst) (mem_of_lookup hop)
        exact List.mem_append_left ["("] hm
      · simp [beq_iff_eq.1 hparen]
    have hall := hwords t ht
    rw [h] at hall
    exact hall
  · intro hsign
    cases hasRole_of_role? h with
    | plus => rfl
    | minus => rfl
    | times => rfl
    | divided => rfl
    | opening => rfl
    | _ => cases hsign

/-! ## The pass over the atoms -/

/-- The atoms that are let through, the roles that they have and whether a decimal variable narrows
among them. The flag says whether a `sub` at the head is a sign, the number how many operands went
before. -/
inductive Passes (vars : Variables) (expected : ValueType) :
    Bool → Nat → List String → List Role → Bool → Prop
  | nil {sign : Bool} {operands : Nat} : Passes vars expected sign operands [] [] false
  | negated {operands : Nat} {n : String} {ts : List String} {rs : List Role} {narrows : Bool}
      (hn : Literal.Numeral n) (hadmitted : admitNumber ("-" ++ n) expected operands = .ok ())
      (h : Passes vars expected false (operands + 1) ts rs narrows) :
      Passes vars expected true operands ("sub" :: n :: ts) (.number :: rs) narrows
  | token {sign : Bool} {operands : Nat} {t : String} {role : Role} {admission : Admission}
      {ts : List String} {rs : List Role} {narrows : Bool} (hsub : t = "sub" → sign = false)
      (hrole : HasRole t role) (hpass : pass vars expected operands role t = .ok admission)
      (h : Passes vars expected role.admitsSign
        (if admission.isOperand then operands + 1 else operands) ts rs narrows) :
      Passes vars expected sign operands (t :: ts) (role :: rs) (admission.narrows || narrows)

theorem HasRole.unique {role' : Role} (h : HasRole t role) (h' : HasRole t role') : role = role' :=
  Option.some.inj (h.role?.symm.trans h'.role?)

theorem gate_passes {prev : Option String} {operands : Nat} {ts : List String}
    {result : List Item × Bool} (h : gate vars expected prev operands ts = .ok result) :
    Passes vars expected (isSignAfter prev) operands ts (result.1.map (·.role)) result.2 := by
  fun_induction gate vars expected prev operands ts generalizing result with
  | case1 =>
    cases h
    exact .nil
  | case2 => cases h
  | case3 prev operands t hsub digits rest hn =>
    rename_i ih
    obtain ⟨_, hadmitted, h⟩ := except_bind_ok.1 h
    obtain ⟨more, hmore, h⟩ := except_bind_ok.1 h
    cases h
    obtain ⟨ht, hsign⟩ := Bool.and_eq_true_iff.1 hsub
    have hpasses := ih hmore
    rw [isSignAfter_eq (role?_of_isNumber hn)] at hpasses
    rw [hsign, beq_iff_eq.1 ht]
    exact .negated (Literal.isNumber_iff.1 hn) hadmitted hpasses
  | case4 => cases h
  | case5 => cases h
  | case6 prev operands t rest hsub role hrole ih =>
    obtain ⟨admission, hpass, h⟩ := except_bind_ok.1 h
    obtain ⟨more, hmore, h⟩ := except_bind_ok.1 h
    cases h
    have hpasses := ih admission hmore
    rw [isSignAfter_eq hrole] at hpasses
    refine .token ?_ (hasRole_of_role? hrole) hpass hpasses
    rintro rfl
    simpa using hsub

/-- Every atom that is let through fits somewhere. -/
theorem Passes.hasRole {sign : Bool} {operands : Nat} {ts : List String} {rs : List Role}
    {narrows : Bool} (h : Passes vars expected sign operands ts rs narrows) :
    ∀ t ∈ ts, ∃ role, HasRole t role := by
  induction h with
  | nil => exact List.forall_mem_nil _
  | negated hn _ _ ih =>
    exact List.forall_mem_cons.2 ⟨⟨_, .minus⟩, List.forall_mem_cons.2 ⟨⟨_, .number hn⟩, ih⟩⟩
  | token _ hrole _ _ ih => exact List.forall_mem_cons.2 ⟨⟨_, hrole⟩, ih⟩

/-- The roles of which a text may consist: `plus` is the only operator. -/
def Role.Joins (role : Role) : Prop := role ≠ .minus ∧ role ≠ .times ∧ role ≠ .over

theorem joins_of_finish {items : List Item} (h : finish .text items = .ok ()) :
    ∀ role ∈ items.map (·.role), role.Joins := by
  unfold finish at h
  dsimp only at h
  split at h
  · cases h
  · rename_i hnone
    intro role hrole
    obtain ⟨item, hitem, rfl⟩ := List.mem_map.1 hrole
    have hother := List.find?_eq_none.1 hnone item hitem
    simp only [Bool.or_eq_true, decide_eq_true_eq, not_or, and_assoc] at hother
    exact hother

/-- An accepted expression: its atoms are let through, their roles form a whole, and texts are
joined by `plus` alone. -/
structure Accepted (vars : Variables) (expected : ValueType) (e : Expression)
    (roles : List Role) : Prop where
  passes : Passes vars expected true 0 e.atoms roles e.narrowing
  formed : Formed .whole roles
  joins : expected = .text → ∀ role ∈ roles, role.Joins

theorem check_accepted {expr : String} {e : Expression} (h : check vars expr expected = .ok e) :
    e.atoms = cut expr ∧ ∃ roles, Accepted vars expected e roles := by
  unfold check at h
  split at h
  · cases h
  · dsimp only at h
    split at h
    · cases h
    · obtain ⟨⟨items, narrowing⟩, hgate, h⟩ := except_bind_ok.1 h
      obtain ⟨_, haccept, h⟩ := except_bind_ok.1 h
      obtain ⟨_, hfinish, h⟩ := except_bind_ok.1 h
      cases h
      refine ⟨rfl, items.map Item.role, gate_passes hgate, (accept_ok_iff items).1 haccept, ?_⟩
      rintro rfl
      exact joins_of_finish hfinish

end Expression

end Courtesy
