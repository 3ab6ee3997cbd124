import Courtesy.Proofs.AtomTokens
import Courtesy.Statement.Value

/-!
# Decimals in integer expressions

Where an integer is expected, a decimal variable is let through and marks the expression as
narrowing, so that its code is cast (`Passes.narrows_iff`). A literal with a fractional part is
refused, with one exception: a `sub` that is a sign is folded into the number behind it by putting a
minus sign in front, and a number that already has one is no longer recognised as a decimal
(`Passes.decimal_negative`). Such a literal is emitted without a cast (`decimal_unmarked`).
-/

namespace Courtesy

namespace Literal

theorem numberShape?_congr {s t : String} (h : unsigned s.toList = unsigned t.toList) :
    numberShape? s = numberShape? t := by
  unfold numberShape?
  rw [h]

/-- A minus sign in front keeps the shape of a number that has none. -/
theorem isDecimal_minus {n : String} (h : n.toList.head? ≠ some '-') :
    isDecimal ("-" ++ n) = isDecimal n := by
  have hunsigned : unsigned ("-" ++ n).toList = unsigned n.toList := by
    rw [String.toList_append]
    change n.toList = unsigned n.toList
    unfold unsigned
    split
    · rename_i cs hcs
      exact absurd (congrArg List.head? hcs) h
    · rfl
  rw [isDecimal, isDecimal, numberShape?_congr hunsigned]

theorem numeral_of_isDecimal {s : String} (h : isDecimal s = true) : Numeral s := by
  rw [← isNumber_iff, isNumber_eq, h, Bool.or_true]

end Literal

namespace Expression

/-- What is let through where an integer is expected: no decimal literal by itself, and a decimal
variable as one that narrows. -/
theorem pass_integer {vars : Variables} {t : String} {role : Role} {operands : Nat}
    {admission : Admission} (h : pass vars .integer operands role t = .ok admission) :
    (role = .number → Literal.isDecimal t = false) ∧
      (admission.narrows = true ↔ role = .var ∧ vars.lookup t = some .decimal) := by
  cases role with
  | var =>
    simp only [pass] at h
    cases htype : vars.lookup t with
    | none =>
      rw [htype] at h
      cases h
    | some type =>
      rw [htype] at h
      obtain ⟨_, -, hnarrows⟩ := except_bind_ok.1 h
      cases hnarrows
      simp
  | number =>
    obtain ⟨_, hadmitted, hnarrows⟩ := except_bind_ok.1 h
    cases hnarrows
    simp only [admitNumber] at hadmitted
    split at hadmitted
    · cases hadmitted
    · rename_i hwhole
      exact ⟨fun _ => Bool.eq_false_iff.2 hwhole, by simp⟩
  | string => cases h
  | boolean => cases h
  | _ =>
    cases h
    simp

section

variable {vars : Variables} {sign : Bool} {operands : Nat} {ts : List String} {rs : List Role}
  {narrows : Bool}

/-- A variable that is declared decimal is among the tokens. -/
def HoldsDecimal (vars : Variables) (ts : List String) : Prop :=
  ∃ t ∈ ts, HasRole t .var ∧ vars.lookup t = some .decimal

theorem holdsDecimal_cons {t : String} :
    HoldsDecimal vars (t :: ts) ↔
      (HasRole t .var ∧ vars.lookup t = some .decimal) ∨ HoldsDecimal vars ts := by
  simp [HoldsDecimal]

theorem Passes.narrows_iff (h : Passes vars .integer sign operands ts rs narrows) :
    narrows = true ↔ HoldsDecimal vars ts := by
  induction h with
  | nil => simp [HoldsDecimal]
  | @negated operands n ts rs narrows hn _ _ ih =>
    have hsub : ¬ HasRole "sub" .var := fun h => by cases h.unique .minus
    have hnumber : ¬ HasRole n .var := fun h => by cases h.unique (.number hn)
    rw [ih, holdsDecimal_cons, holdsDecimal_cons]
    simp [hsub, hnumber]
  | @token sign operands t role admission ts rs narrows _ hrole hpass _ ih =>
    have hname : role = .var ↔ HasRole t .var :=
      ⟨fun h => h ▸ hrole, fun h => hrole.unique h⟩
    rw [Bool.or_eq_true, ih, (pass_integer hpass).2, hname, holdsDecimal_cons]

/-- Whether a `sub` behind these tokens is a sign, given whether it is one in front of them. -/
def signBehind (sign : Bool) (front : List String) : Bool :=
  (front.getLast?.map fun t => isSignAfter (some t)).getD sign

theorem signBehind_cons {t : String} {role : Role} (h : HasRole t role) (sign : Bool)
    (front : List String) : signBehind sign (t :: front) = signBehind role.admitsSign front := by
  cases front with
  | nil => exact isSignAfter_eq h.role?
  | cons u front =>
    rw [signBehind, List.getLast?_cons_cons, signBehind, List.getLast?_cons]
    rfl

/-- A decimal literal stands behind a sign and has a minus sign of its own. -/
theorem Passes.decimal_negative (h : Passes vars .integer sign operands ts rs narrows)
    {before after : List String} {t : String} (hts : ts = before ++ t :: after)
    (hd : Literal.isDecimal t = true) :
    ∃ front, before = front ++ ["sub"] ∧ signBehind sign front = true ∧
      t.toList.head? = some '-' := by
  have hnumber : HasRole t .number := .number (Literal.numeral_of_isDecimal hd)
  induction h generalizing before with
  | nil => simp at hts
  | @negated operands n ts rs narrows hn hadmitted _ ih =>
    rcases before with - | ⟨b, - | ⟨c, before⟩⟩
    · obtain ⟨rfl, -⟩ := List.cons.inj hts
      cases hnumber.unique .minus
    · obtain ⟨rfl, htail⟩ := List.cons.inj hts
      obtain ⟨rfl, -⟩ := List.cons.inj htail
      refine ⟨[], rfl, rfl, Classical.byContradiction fun hhead => ?_⟩
      simp only [admitNumber, Literal.isDecimal_minus hhead, hd] at hadmitted
      cases hadmitted
    · obtain ⟨rfl, htail⟩ := List.cons.inj hts
      obtain ⟨rfl, hmore⟩ := List.cons.inj htail
      obtain ⟨front, rfl, hsign, hhead⟩ := ih hmore
      refine ⟨"sub" :: n :: front, rfl, ?_, hhead⟩
      rwa [signBehind_cons .minus, signBehind_cons (.number hn)]
  | @token sign operands u role admission ts rs narrows _ hrole hpass _ ih =>
    cases before with
    | nil =>
      obtain ⟨rfl, -⟩ := List.cons.inj hts
      rw [(pass_integer hpass).1 (hrole.unique hnumber)] at hd
      cases hd
    | cons b before =>
      obtain ⟨rfl, hmore⟩ := List.cons.inj hts
      obtain ⟨front, rfl, hsign, hhead⟩ := ih hmore
      refine ⟨u :: front, rfl, ?_, hhead⟩
      rwa [signBehind_cons hrole]

end

/-- In the text of an accepted integer expression a decimal literal stands only behind a `sub` that
is a sign, and with a minus sign of its own. The expression is marked as narrowing exactly if a
decimal variable is among its tokens, and then, and only then, its code is cast. -/
theorem integer_narrowing {vars : Variables} {expr : String} {e : Expression}
    (h : check vars expr .integer = .ok e) :
    (∀ before t after, tokenize e.text = before ++ t :: after → Literal.isDecimal t = true →
      ∃ front, before = front ++ ["sub"] ∧ isSignAfter front.getLast? = true ∧
        t.toList.head? = some '-') ∧
    (e.narrowing = true ↔ HoldsDecimal vars (tokenize e.text)) ∧
    ∀ scope place, scope.visible = vars →
      (HoldsDecimal vars (tokenize e.text) →
        Statement.value scope place expr .integer =
          .ok ("(int)(" ++ Target.lower e.text ++ ")")) ∧
      (¬ HoldsDecimal vars (tokenize e.text) →
        Statement.value scope place expr .integer = .ok (Target.lower e.text)) := by
  obtain ⟨hcut, roles, haccepted⟩ := check_accepted h
  rw [haccepted.tokenize_text hcut]
  have hnarrows := haccepted.passes.narrows_iff
  refine ⟨fun before t after hts hd => ?_, hnarrows, fun scope place hscope => ?_⟩
  · obtain ⟨front, hfront, hsign, hhead⟩ := haccepted.passes.decimal_negative hts hd
    refine ⟨front, hfront, ?_, hhead⟩
    rw [signBehind] at hsign
    cases hlast : front.getLast? with
    | none => rfl
    | some u =>
      rw [hlast] at hsign
      exact hsign
  · rw [Statement.value, hscope, h]
    dsimp only
    rw [← hnarrows]
    refine ⟨fun hcast => by rw [hcast]; rfl, fun hplain => ?_⟩
    rw [Bool.eq_false_iff.2 hplain]
    rfl

/-- A decimal variable in parentheses, and a negative number behind a sign. -/
theorem integer_narrowing_grouped :
    ∃ e, check [("d", .decimal), ("i", .integer)] "i add(d sub sub -2)" .integer = .ok e ∧
      e.narrowing = true ∧
      Statement.value ⟨[[("d", .decimal), ("i", .integer)]], []⟩ .assigned "i add(d sub sub -2)"
        .integer = .ok "(int)(i + ( d - - -2 ))" := by
  let vars : Variables := [("d", .decimal), ("i", .integer)]
  let expr := "i add(d sub sub -2)"
  let e : Expression := ⟨["i", "add", "(", "d", "sub", "sub", "-2", ")"], true⟩
  have hok : check vars expr .integer = .ok e := except_toOption_eq_some.1 (by decide +kernel)
  obtain ⟨-, hnarrows, hcode⟩ := integer_narrowing hok
  have hlower : Target.lower e.text = "i + ( d - - -2 )" := by decide +kernel
  have hvalue := (hcode ⟨[vars], []⟩ .assigned (by decide)).1 (hnarrows.1 rfl)
  rw [hlower] at hvalue
  exact ⟨e, hok, rfl, hvalue⟩

/-- A literal with a fractional part, spelled with a minus sign behind a sign, is let through where
an integer is expected, and its code is not cast. -/
theorem decimal_unmarked :
    ∃ e, check [] "sub -5.5" .integer = .ok e ∧ "-5.5" ∈ tokenize e.text ∧
      Literal.isDecimal "-5.5" = true ∧ e.narrowing = false ∧
      Statement.value {} .initialValue "sub -5.5" .integer = .ok "- -5.5" := by
  refine ⟨⟨["sub", "-5.5"], false⟩, except_toOption_eq_some.1 (by decide +kernel), ?_⟩
  exact ⟨by decide +kernel, by decide, rfl, except_toOption_eq_some.1 (by decide +kernel)⟩

end Expression

end Courtesy
