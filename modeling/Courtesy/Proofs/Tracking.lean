import Courtesy.Proofs.Places
import Courtesy.Proofs.Registration
import Mathlib.Data.List.Induction

/-!
# What a tracker answers over a history

Files are written and removed and a tracker is asked about paths, in any order. Whether a path
counts as changed is decided by two readings of it: the one now, and the one at the latest question
about the same path at which it could be read (`LastSeen`). Questions about other paths, questions
at which the path could not be read, and whatever happened to the file in between do not matter.

* `recorded?_after`: the tracker has recorded what was last seen.
* `unchanged_iff_last_seen`: the answer to any question behind any history.
-/

namespace Courtesy

/-- A disk and the tracker that is asked about paths on it. -/
structure Tracking where
  disk : Disk
  tracker : Tracker := {}
  deriving DecidableEq, Repr, Inhabited

namespace Tracking

/-- What can happen: files and directories are written or removed, or the tracker is asked about a
path. -/
inductive Deed where
  | change (c : Change)
  | ask (path : String)
  deriving DecidableEq, Repr

/-- Asks whether a path has changed. -/
def ask (s : Tracking) (path : String) : Tracking × Bool :=
  let (tracker, changed) := s.tracker.check s.disk path
  ({ s with tracker := tracker }, changed)

def perform (s : Tracking) : Deed → Tracking
  | .change c => { s with disk := { s.disk with tree := c.apply s.disk.tree } }
  | .ask path => (s.ask path).1

/-- The disk and the tracker behind a history. -/
def after (s : Tracking) (deeds : List Deed) : Tracking := deeds.foldl perform s

theorem after_concat (s : Tracking) (deeds : List Deed) (deed : Deed) :
    s.after (deeds ++ [deed]) = (s.after deeds).perform deed := by
  rw [after, List.foldl_append]
  rfl

/-- What a path holds behind a history that starts on a disk with a new tracker. -/
def content? (d : Disk) (deeds : List Deed) (path : String) : Option String :=
  ((Tracking.mk d {}).after deeds).disk.content? path

/-- The latest question about a path at which it could be read is the one in place `i`, and the path
held `content` then. -/
structure LastSeen (d : Disk) (deeds : List Deed) (path content : String) (i : Nat) : Prop where
  asked : deeds[i]? = some (.ask path)
  held : content? d (deeds.take i) path = some content
  unread : ∀ j, i < j → deeds[j]? = some (.ask path) → content? d (deeds.take j) path = none

section

variable {d : Disk} {deeds : List Deed} {path content : String} {i : Nat}

theorem LastSeen.lt (h : LastSeen d deeds path content i) : i < deeds.length :=
  (List.getElem?_eq_some_iff.1 h.asked).1

theorem take_concat_length (deed : Deed) : (deeds ++ [deed]).take deeds.length = deeds :=
  List.take_left

/-- A question at which the path can be read is the latest one. -/
theorem lastSeen_ask (hread : content? d deeds path = some content) :
    LastSeen d (deeds ++ [.ask path]) path content deeds.length where
  asked := List.getElem?_concat_length
  held := by rwa [take_concat_length]
  unread j hj hasked := by
    have hlt := (List.getElem?_eq_some_iff.1 hasked).1
    rw [List.length_append] at hlt
    exact absurd hlt (Nat.not_lt.2 hj)

/-- No other deed is a question that counts. -/
theorem lastSeen_concat_iff {deed : Deed}
    (hdeed : deed = .ask path → content? d deeds path = none) :
    LastSeen d (deeds ++ [deed]) path content i ↔ LastSeen d deeds path content i := by
  constructor
  · intro h
    have hlt : i < deeds.length := by
      rcases Nat.lt_or_eq_of_le (Nat.le_of_lt_succ (List.length_append ▸ h.lt)) with hlt | rfl
      · exact hlt
      · have hasked := h.asked
        have hheld := h.held
        rw [List.getElem?_concat_length] at hasked
        rw [take_concat_length, hdeed (Option.some.inj hasked)] at hheld
        cases hheld
    refine ⟨?_, ?_, ?_⟩
    · rw [← h.asked, List.getElem?_append_left hlt]
    · rw [← h.held, List.take_append_of_le_length (Nat.le_of_lt hlt)]
    · intro j hj hasked
      have hlt' := (List.getElem?_eq_some_iff.1 hasked).1
      rw [← h.unread j hj (by rw [List.getElem?_append_left hlt', hasked]),
        List.take_append_of_le_length (Nat.le_of_lt hlt')]
  · intro h
    refine ⟨?_, ?_, ?_⟩
    · rw [List.getElem?_append_left h.lt, h.asked]
    · rw [List.take_append_of_le_length (Nat.le_of_lt h.lt), h.held]
    · intro j hj hasked
      rcases Nat.lt_trichotomy j deeds.length with hlt | rfl | hgt
      · rw [List.getElem?_append_left hlt] at hasked
        rw [List.take_append_of_le_length (Nat.le_of_lt hlt)]
        exact h.unread j hj hasked
      · rw [List.getElem?_concat_length] at hasked
        rw [take_concat_length]
        exact hdeed (Option.some.inj hasked)
      · rw [List.getElem?_eq_none (by rw [List.length_append]; exact hgt)] at hasked
        cases hasked

theorem LastSeen.unique {content' : String} {i' : Nat} (h : LastSeen d deeds path content i)
    (h' : LastSeen d deeds path content' i') : content = content' := by
  have heq : i = i' := by
    rcases Nat.lt_trichotomy i i' with hlt | heq | hlt
    · cases (h.unread i' hlt h'.asked).symm.trans h'.held
    · exact heq
    · cases (h'.unread i hlt h.asked).symm.trans h.held
  subst heq
  exact Option.some.inj (h.held.symm.trans h'.held)

end

/-! ## The tracker behind a history -/

/-- Only a question about a path that can be read is recorded. -/
theorem recorded?_perform (s : Tracking) (deed : Deed) {path : String}
    (hdeed : deed = .ask path → s.disk.content? path = none) :
    (s.perform deed).tracker.recorded? path = s.tracker.recorded? path := by
  cases deed with
  | change c => rfl
  | ask q =>
    change (s.tracker.check s.disk q).1.recorded? path = _
    cases hread : s.disk.content? q with
    | none =>
      rw [Tracker.check_unread fun content h => ?_]
      rw [Disk.content?_eq_some.2 h] at hread
      cases hread
    | some content =>
      rw [(Tracker.check_read (Disk.content?_eq_some.1 hread)).1 path, if_neg]
      rintro rfl
      rw [hdeed rfl] at hread
      cases hread

/-- The tracker has recorded the fingerprint of what was last seen. -/
theorem recorded?_after (d : Disk) (deeds : List Deed) (path hex : String) :
    ((Tracking.mk d {}).after deeds).tracker.recorded? path = some hex ↔
      ∃ content i, LastSeen d deeds path content i ∧ fingerprint content = hex := by
  induction deeds using List.reverseRecOn with
  | nil =>
    constructor
    · intro h
      cases h
    · rintro ⟨content, i, h, -⟩
      cases h.lt
  | append_singleton deeds deed ih =>
    rw [after_concat]
    by_cases hseen : deed = .ask path ∧ (content? d deeds path).isSome
    · obtain ⟨rfl, hsome⟩ := hseen
      obtain ⟨now, hnow⟩ := Option.isSome_iff_exists.1 hsome
      have hrecorded := (Tracker.check_read (t := ((Tracking.mk d {}).after deeds).tracker)
        (Disk.content?_eq_some.1 hnow)).1 path
      rw [if_pos rfl] at hrecorded
      change (Tracker.check _ _ path).1.recorded? path = _ ↔ _
      rw [hrecorded, Option.some.injEq]
      constructor
      · intro h
        exact ⟨now, deeds.length, lastSeen_ask hnow, h⟩
      · rintro ⟨content, i, h, rfl⟩
        rw [h.unique (lastSeen_ask hnow)]
    · have hdeed : deed = .ask path → content? d deeds path = none := fun h =>
        Option.not_isSome_iff_eq_none.1 fun hsome => hseen ⟨h, hsome⟩
      rw [recorded?_perform _ deed hdeed, ih]
      simp only [lastSeen_concat_iff hdeed]

/-- A tracker answers that nothing changed where the recorded fingerprint is the one of now. -/
theorem ask_eq_false_iff (s : Tracking) (path : String) :
    (s.ask path).2 = false ↔
      ∃ now, s.disk.content? path = some now ∧
        s.tracker.recorded? path = some (fingerprint now) := by
  change (s.tracker.check s.disk path).2 = false ↔ _
  cases hread : s.disk.read path with
  | error fault =>
    have hnone : s.disk.content? path = none := by rw [Disk.content?, hread]; rfl
    simp [Tracker.check, hread, hnone]
  | ok content =>
    rw [Disk.content?_eq_some.2 hread, ← Bool.not_eq_true, (Tracker.check_read hread).2, not_not]
    simp

/-- A path counts as unchanged exactly if it can be read and has the fingerprint that it had at the
latest question about it at which it could be read. -/
theorem unchanged_iff_last_seen (d : Disk) (deeds : List Deed) (path : String) :
    (((Tracking.mk d {}).after deeds).ask path).2 = false ↔
      ∃ now seen i, content? d deeds path = some now ∧ LastSeen d deeds path seen i ∧
        fingerprint now = fingerprint seen := by
  rw [ask_eq_false_iff]
  constructor
  · rintro ⟨now, hnow, hrecorded⟩
    obtain ⟨seen, i, hseen, heq⟩ := (recorded?_after d deeds path _).1 hrecorded
    exact ⟨now, seen, i, hnow, hseen, heq.symm⟩
  · rintro ⟨now, seen, i, hnow, hseen, heq⟩
    exact ⟨now, hnow, (recorded?_after d deeds path _).2 ⟨seen, i, hseen, heq.symm⟩⟩

end Tracking

end Courtesy
