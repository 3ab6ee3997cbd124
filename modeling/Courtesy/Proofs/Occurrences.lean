import Courtesy.Proofs.Carets
import Mathlib.Order.Bounds.Basic

/-!
# Where a token is located

A token is looked for in a line and in the four lines above it. Offsets count bytes; an occurrence
is where the characters of the token stand, and it is whole when no character of a word touches it.

* `offset?_eq_some_iff`: in a line, what is found is the first whole occurrence or, without one, the
  first occurrence.
* `located_best`: what is located is in the nearest line with an occurrence, if there is one in
  reach.
-/

namespace Courtesy.Location

open Lexeme (width)
open Text (isWordChar)

/-! ## Occurrences -/

/-- A token stands in a line, `k` bytes behind its start. -/
def OccursAt (token line : String) (k : Nat) : Prop := Stands token.toList line.toList k

/-- A token stands in a line, `k` bytes behind its start, and no character of a word stands right in
front of it or right behind it. -/
def WholeAt (token line : String) (k : Nat) : Prop :=
  ∃ front back, line.toList = front ++ (token.toList ++ back) ∧ k = width front ∧
    (∀ c ∈ front.getLast?, isWordChar c = false) ∧ ∀ c ∈ back.head?, isWordChar c = false

/-- The first occurrence that no character of a word touches or, where there is none, the
first one. -/
def BestAt (token line : String) (k : Nat) : Prop :=
  IsLeast {j | WholeAt token line j} k ∨
    (¬ ∃ j, WholeAt token line j) ∧ IsLeast {j | OccursAt token line j} k

/-! ## What a search finds -/

theorem exists_firstFrom {token line : List Char} {n : Nat} (h : Stands token line n)
    (offset : Nat) : ∃ k ≤ offset + n, firstFrom token offset line = some k := by
  obtain ⟨front, back, rfl, rfl⟩ := h
  change ∃ k ≤ offset + width front, _
  induction front generalizing offset with
  | nil =>
    refine ⟨offset, Nat.le_add_right _ _, ?_⟩
    rw [List.nil_append]
    cases htext : token ++ back with
    | nil =>
      rw [(List.append_eq_nil_iff.1 htext).1]
      rfl
    | cons c cs =>
      have hprefix : token.isPrefixOf (c :: cs) = true := by
        rw [← htext]
        simp
      rw [firstFrom, if_pos hprefix]
  | cons c front ih =>
    rw [List.cons_append, firstFrom, Lexeme.width_cons]
    split
    · exact ⟨offset, Nat.le_add_right _ _, rfl⟩
    · obtain ⟨k, hle, hk⟩ := ih (offset + c.utf8Size)
      exact ⟨k, by omega, hk⟩

/-- A search that finds something of the kind, and nothing behind anything of the kind, finds the
first of the kind. -/
theorem eq_some_iff_isLeast {found : Option Nat} {p : Nat → Prop}
    (hsound : ∀ j, found = some j → p j) (hfirst : ∀ j, p j → ∃ k ≤ j, found = some k) {k : Nat} :
    found = some k ↔ IsLeast {j | p j} k := by
  constructor
  · intro h
    refine ⟨hsound k h, fun j hj => ?_⟩
    obtain ⟨k', hle, hk'⟩ := hfirst j hj
    rw [h] at hk'
    cases hk'
    exact hle
  · rintro ⟨hk, hlower⟩
    obtain ⟨k', hle, hk'⟩ := hfirst k hk
    rwa [Nat.le_antisymm (hlower (hsound k' hk')) hle]

theorem untouched_iff {front back : List Char} :
    Untouched front back ↔ (∀ c ∈ front.getLast?, isWordChar c = false) ∧
      ∀ c ∈ back.head?, isWordChar c = false := by
  cases back <;> simp [Untouched, freeAfter]

section

variable {token line : String} {k : Nat}

theorem wholeAt_of_wholeFrom (h : wholeFrom token.toList false 0 line.toList = some k) :
    WholeAt token line k := by
  obtain ⟨front, back, hline, rfl, -, huntouched⟩ := wholeFrom_some h
  exact ⟨front, back, hline, Nat.zero_add _, untouched_iff.1 huntouched⟩

theorem exists_wholeFrom_le (h : WholeAt token line k) :
    ∃ j ≤ k, wholeFrom token.toList false 0 line.toList = some j := by
  obtain ⟨front, back, hline, rfl, huntouched⟩ := h
  rw [hline, ← Nat.zero_add (width front)]
  exact exists_wholeFrom (untouched_iff.2 huntouched) (fun _ => rfl) 0

theorem occursAt_of_firstFrom (h : firstFrom token.toList 0 line.toList = some k) :
    OccursAt token line k := by
  obtain ⟨n, rfl, hn⟩ := stands_of_firstFrom h
  rwa [Nat.zero_add]

theorem exists_firstFrom_le (h : OccursAt token line k) :
    ∃ j ≤ k, firstFrom token.toList 0 line.toList = some j := by
  rw [← Nat.zero_add k]
  exact exists_firstFrom h 0

/-- The offset that is found is the best one. -/
theorem offset?_eq_some_iff : offset? token line = some k ↔ BestAt token line k := by
  have hwhole : wholeFrom token.toList false 0 line.toList = some k ↔
      IsLeast {j | WholeAt token line j} k :=
    eq_some_iff_isLeast (fun _ => wholeAt_of_wholeFrom) fun _ => exists_wholeFrom_le
  have hfirst : firstFrom token.toList 0 line.toList = some k ↔
      IsLeast {j | OccursAt token line j} k :=
    eq_some_iff_isLeast (fun _ => occursAt_of_firstFrom) fun _ => exists_firstFrom_le
  have hnone : wholeFrom token.toList false 0 line.toList = none ↔ ¬ ∃ j, WholeAt token line j := by
    constructor
    · rintro h ⟨j, hj⟩
      obtain ⟨j', -, hj'⟩ := exists_wholeFrom_le hj
      rw [h] at hj'
      cases hj'
    · intro h
      exact Option.eq_none_iff_forall_not_mem.2 fun j hj => h ⟨j, wholeAt_of_wholeFrom hj⟩
  rw [offset?, orElse_eq_some, hwhole, hfirst, hnone, BestAt]

theorem exists_offset?_iff :
    (∃ k, offset? token line = some k) ↔ ∃ k, OccursAt token line k := by
  constructor
  · rintro ⟨k, hk⟩
    exact ⟨k, stands_of_offset? hk⟩
  · rintro ⟨k, hk⟩
    obtain ⟨j, -, hj⟩ := exists_firstFrom_le hk
    cases hwhole : wholeFrom token.toList false 0 line.toList with
    | some i => exact ⟨i, orElse_eq_some.2 (.inl hwhole)⟩
    | none => exact ⟨j, orElse_eq_some.2 (.inr ⟨hwhole, hj⟩)⟩

end

/-! ## The nearest line -/

theorem findSome?_range_eq_some_iff {α : Type} {f : Nat → Option α} {n : Nat} {a : α} :
    (List.range n).findSome? f = some a ↔ ∃ i < n, f i = some a ∧ ∀ j < i, f j = none := by
  induction n with
  | zero => simp
  | succ n ih =>
    rw [List.range_succ, List.findSome?_append, Option.or_eq_some_iff, ih,
      List.findSome?_eq_none_iff, List.findSome?_singleton]
    constructor
    · rintro (⟨i, hi, hfound⟩ | ⟨hnone, hfound⟩)
      · exact ⟨i, Nat.lt_succ_of_lt hi, hfound⟩
      · exact ⟨n, Nat.lt_succ_self n, hfound, fun j hj => hnone j (List.mem_range.2 hj)⟩
    · rintro ⟨i, hi, hfound, hnone⟩
      rcases Nat.lt_succ_iff_lt_or_eq.1 hi with hi | rfl
      · exact .inl ⟨i, hi, hfound, hnone⟩
      · exact .inr ⟨fun j hj => hnone j (List.mem_range.1 hj), hfound⟩

/-- The index of the line at which a search starts. -/
def firstTried (lines : List String) (start : Int) : Nat := min start.toNat (lines.length - 1)

/-- The line and the column of a token in the line that is `back` lines above the first
one tried. -/
def lookUp? (lines : List String) (token : String) (start : Int) (back : Nat) :
    Option (Nat × Nat) :=
  if back ≤ firstTried lines start then do
    let line ← lines[firstTried lines start - back]?
    let offset ← offset? token line
    return (firstTried lines start - back + 1, offset + 1)
  else none

/-- The indices of the lines with a token among the five that end with the given one or, where this
is behind the last line, with the last line. -/
def inReach (lines : List String) (token : String) (start : Int) : Set Nat :=
  {i | min start (lines.length - 1) - 5 < i ∧ (i : Int) ≤ min start (lines.length - 1) ∧
    ∃ line, lines[i]? = some line ∧ ∃ k, OccursAt token line k}

section

variable {lines : List String} {token : String} {start : Int}

theorem lookUp?_eq_some_iff {back : Nat} {place : Nat × Nat} :
    lookUp? lines token start back = some place ↔ back ≤ firstTried lines start ∧ ∃ line k,
      lines[firstTried lines start - back]? = some line ∧ offset? token line = some k ∧
        place = (firstTried lines start - back + 1, k + 1) := by
  unfold lookUp?
  split
  · rename_i hle
    simp only [Option.bind_eq_bind, Option.bind_eq_some_iff, Option.pure_def, Option.some.injEq,
      hle, true_and, eq_comm (a := place), ← exists_and_left]
  · rename_i hlt
    simp [hlt]

theorem firstTried_eq (hstart : 0 ≤ start) (hlines : 0 < lines.length) :
    (firstTried lines start : Int) = min start (lines.length - 1) := by
  unfold firstTried
  omega

variable (hstart : 0 ≤ start)

include hstart

/-- The lines in reach are those in which looking succeeds. -/
theorem mem_inReach_iff {i : Nat} :
    i ∈ inReach lines token start ↔ ∃ back < 5, i = firstTried lines start - back ∧
      ∃ place, lookUp? lines token start back = some place := by
  simp only [lookUp?_eq_some_iff]
  constructor
  · rintro ⟨hlow, hhigh, line, hline, hoccurs⟩
    obtain ⟨k, hk⟩ := exists_offset?_iff.2 hoccurs
    obtain ⟨hlt, -⟩ := List.getElem?_eq_some_iff.1 hline
    have hlast := firstTried_eq hstart (Nat.zero_lt_of_lt hlt)
    have hi : firstTried lines start - (firstTried lines start - i) = i := by omega
    refine ⟨firstTried lines start - i, by omega, hi.symm, _, Nat.sub_le _ _, line, k, ?_, hk, rfl⟩
    rwa [hi]
  · rintro ⟨back, hback, rfl, _, hle, line, k, hline, hk, -⟩
    obtain ⟨hlt, -⟩ := List.getElem?_eq_some_iff.1 hline
    have hlast := firstTried_eq hstart (Nat.zero_lt_of_lt hlt)
    exact ⟨by omega, by omega, line, hline, exists_offset?_iff.1 ⟨k, hk⟩⟩

variable (htoken : token ≠ "")

include htoken

theorem locate?_eq :
    locate? lines token start = (List.range 5).findSome? (lookUp? lines token start) := by
  unfold locate?
  rw [if_neg (by simpa [htoken] using hstart)]
  rfl

/-- What is located is the best occurrence in the nearest line with one. -/
theorem locate?_eq_some_iff {place : Nat × Nat} :
    locate? lines token start = some place ↔
      ∃ i line k, IsGreatest (inReach lines token start) i ∧ lines[i]? = some line ∧
        BestAt token line k ∧ place = (i + 1, k + 1) := by
  have hmem {i : Nat} : i ∈ inReach lines token start ↔ ∃ back < 5,
      i = firstTried lines start - back ∧ ∃ place, lookUp? lines token start back = some place :=
    mem_inReach_iff hstart
  rw [locate?_eq hstart htoken, findSome?_range_eq_some_iff]
  constructor
  · rintro ⟨back, hback, hfound, hnone⟩
    obtain ⟨hle, line, k, hline, hk, rfl⟩ := lookUp?_eq_some_iff.1 hfound
    refine ⟨_, line, k, ⟨hmem.2 ⟨back, hback, rfl, _, hfound⟩, ?_⟩, hline,
      offset?_eq_some_iff.1 hk, rfl⟩
    intro j hj
    obtain ⟨back', -, rfl, place, hplace⟩ := hmem.1 hj
    have hfarther : back ≤ back' := by
      by_contra hnearer
      rw [hnone back' (Nat.lt_of_not_le hnearer)] at hplace
      cases hplace
    omega
  · rintro ⟨i, line, k, ⟨hi, hgreatest⟩, hline, hbest, rfl⟩
    obtain ⟨back, hback, rfl, _, hfound⟩ := hmem.1 hi
    obtain ⟨hle, -⟩ := lookUp?_eq_some_iff.1 hfound
    have hk := offset?_eq_some_iff.2 hbest
    refine ⟨back, hback, lookUp?_eq_some_iff.2 ⟨hle, line, k, hline, hk, rfl⟩, ?_⟩
    intro j hj
    refine Option.eq_none_iff_forall_not_mem.2 fun place hplace => ?_
    have := hgreatest (hmem.2 ⟨j, by omega, rfl, place, hplace⟩)
    omega

/-- A place is located exactly if some line in reach holds the token. -/
theorem isSome_locate?_iff :
    (locate? lines token start).isSome = true ↔ (inReach lines token start).Nonempty := by
  rw [locate?_eq hstart htoken, List.findSome?_isSome_iff]
  constructor
  · rintro ⟨back, hback, hfound⟩
    exact ⟨_, (mem_inReach_iff hstart).2
      ⟨back, List.mem_range.1 hback, rfl, Option.isSome_iff_exists.1 hfound⟩⟩
  · rintro ⟨i, hi⟩
    obtain ⟨back, hback, -, hfound⟩ := (mem_inReach_iff hstart).1 hi
    exact ⟨back, List.mem_range.2 hback, Option.isSome_iff_exists.2 hfound⟩

end

/-- A token that is not empty is located exactly if it occurs in one of the five lines that end with
the given one; it is located in the nearest such line, at the first occurrence there that no
character of a word touches or, if there is none, at the first occurrence. -/
theorem located_best {token : String} (htoken : token ≠ "") (lines : List String) {start : Int}
    (hstart : 0 ≤ start) :
    ((locate? lines token start).isSome = true ↔ (inReach lines token start).Nonempty) ∧
    ∀ place, locate? lines token start = some place ↔
      ∃ i line k, IsGreatest (inReach lines token start) i ∧ lines[i]? = some line ∧
        BestAt token line k ∧ place = (i + 1, k + 1) :=
  ⟨isSome_locate?_iff hstart htoken, fun _ => locate?_eq_some_iff hstart htoken⟩

/-- The search starts at the last line, passes a line without the token and an occurrence in a
longer word, and counts two bytes for the first character. -/
theorem located_best_word :
    locate? ["to", "é totals to to", "none"] "to" 7 = some (2, 11) ∧
    IsGreatest (inReach ["to", "é totals to to", "none"] "to" 7) 1 ∧
    BestAt "to" "é totals to to" 10 := by
  have hfound : locate? ["to", "é totals to to", "none"] "to" 7 = some (2, 11) := by decide +kernel
  obtain ⟨i, line, k, hgreatest, hline, hbest, hplace⟩ :=
    ((located_best (by decide) ["to", "é totals to to", "none"] (by decide)).2 _).1 hfound
  cases hplace
  cases hline
  exact ⟨hfound, hgreatest, hbest⟩

end Courtesy.Location
