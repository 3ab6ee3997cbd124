/-!
# Tallies

A tally counts how often each of its keys was added. Main statement: adding a key raises its own
count by one and leaves every other count alone.
-/

namespace Courtesy

structure Tally (α : Type) where
  counts : List (α × Nat) := []
  deriving DecidableEq, Repr, Inhabited

namespace Tally

variable {α : Type} [DecidableEq α]

/-- The count of a key in a list of counts. -/
def countIn (a : α) : List (α × Nat) → Nat
  | [] => 0
  | (b, n) :: rest => if b = a then n else countIn a rest

/-- A list of counts with one more of a key. -/
def addTo (a : α) : List (α × Nat) → List (α × Nat)
  | [] => [(a, 1)]
  | (b, n) :: rest => if b = a then (b, n + 1) :: rest else (b, n) :: addTo a rest

/-- How often a key was added. -/
def count (t : Tally α) (a : α) : Nat := countIn a t.counts

/-- The tally after a key was added once more. -/
def add (t : Tally α) (a : α) : Tally α := ⟨addTo a t.counts⟩

/-- The tally after several keys were added. -/
def addAll (t : Tally α) (as : List α) : Tally α := as.foldl add t

theorem countIn_addTo (a b : α) (cs : List (α × Nat)) :
    countIn b (addTo a cs) = countIn b cs + if a = b then 1 else 0 := by
  induction cs with
  | nil => simp [addTo, countIn]
  | cons c rest ih =>
    obtain ⟨k, n⟩ := c
    by_cases hk : k = a
    · subst hk
      by_cases hb : k = b <;> simp [addTo, countIn, hb]
    · by_cases hb : k = b
      · subst hb
        simp [addTo, countIn, hk, Ne.symm hk]
      · simp [addTo, countIn, hk, hb, ih]

theorem count_add (t : Tally α) (a b : α) :
    (t.add a).count b = t.count b + if a = b then 1 else 0 := countIn_addTo a b t.counts

theorem count_addAll (t : Tally α) (as : List α) (b : α) :
    (t.addAll as).count b = t.count b + as.count b := by
  induction as generalizing t with
  | nil => rfl
  | cons a as ih =>
    have hstep : t.addAll (a :: as) = (t.add a).addAll as := rfl
    rw [hstep, ih, count_add, List.count_cons, Nat.add_assoc, Nat.add_comm (as.count b)]
    simp only [beq_iff_eq]

end Tally

end Courtesy
