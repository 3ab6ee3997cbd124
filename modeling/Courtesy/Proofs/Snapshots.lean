import Courtesy.Proofs.Scopes
import Mathlib.Data.List.Infix
import Mathlib.Data.List.Induction

/-!
# Listing what is visible and looking names up

Expressions are checked against a list of all visible variables, declarations and assignments look
single names up. Here a scope is changed in any way whatsoever, so a name may be bound in several
frames, and declared again in one of them. Each frame still binds a name once
(`Scope.functional_after`), hence the list has one entry for each name, and it is the one that
looking the name up finds (`Scope.Functional.mem_visible_iff`).

Between the opening of a block and its end the frames that were there stay where they are, under
those of the block (`Scope.frames_after_push`). So behind a block all is visible that was visible
before, and nothing else.

Main statement: `Scope.visible_agrees`.
-/

namespace Courtesy.Scope

/-! ## Changes of a scope -/

/-- What can be done to a scope. -/
inductive Operation where
  | push
  | pop
  | enter
  | reset
  | declare (name : String) (type : ValueType)
  | define (f : Signature)
  deriving DecidableEq, Repr

def apply (s : Scope) : Operation → Scope
  | .push => s.push
  | .pop => s.pop
  | .enter => s.enterFunction
  | .reset => {}
  | .declare name type => s.declare name type
  | .define f => s.declareFunction f

/-- The scope behind a row of operations. -/
def after (s : Scope) (ops : List Operation) : Scope := ops.foldl apply s

/-- The scope that a row of operations makes of an empty one. -/
def reached (ops : List Operation) : Scope := after {} ops

theorem after_append (s : Scope) (ops ops' : List Operation) :
    s.after (ops ++ ops') = (s.after ops).after ops' :=
  List.foldl_append

/-- Frames are opened and closed in pairs, no frame is closed that was not opened in the row itself,
and frames are dropped in no other way. -/
structure Balanced (ops : List Operation) : Prop where
  kept : .enter ∉ ops ∧ .reset ∉ ops
  above : ∀ front, front <+: ops → front.count .pop ≤ front.count .push
  closed : ops.count .pop = ops.count .push

instance (ops : List Operation) : Decidable (Balanced ops) :=
  decidable_of_iff ((.enter ∉ ops ∧ .reset ∉ ops) ∧
      (∀ front ∈ ops.inits, front.count .pop ≤ front.count .push) ∧
      ops.count .pop = ops.count .push) <| by
    simp only [List.mem_inits]
    constructor
    · rintro ⟨hkept, habove, hclosed⟩
      exact ⟨hkept, habove, hclosed⟩
    · rintro ⟨hkept, habove, hclosed⟩
      exact ⟨hkept, habove, hclosed⟩

/-! ## One entry for each name -/

/-- Each frame binds a name once. -/
def Functional (s : Scope) : Prop := ∀ frame ∈ s.frames, (frame.map (·.1)).Nodup

theorem functional_empty : Functional {} := by simp [Functional]

theorem nodup_bind {frame : Variables} (h : (frame.map (·.1)).Nodup) (x : String) (t : ValueType) :
    ((frame.bind x t).map (·.1)).Nodup := by
  rw [Variables.bind, List.map_cons, List.nodup_cons]
  refine ⟨?_, h.sublist (List.filter_sublist.map _)⟩
  intro hx
  obtain ⟨v, hv, hvx⟩ := List.mem_map.1 hx
  have hne := (List.mem_filter.1 hv).2
  rw [bne_iff_ne] at hne
  exact hne hvx

theorem Functional.apply {s : Scope} (h : s.Functional) (op : Operation) :
    (s.apply op).Functional := by
  cases op with
  | push => exact List.forall_mem_cons.2 ⟨List.nodup_nil, h⟩
  | pop => exact fun frame hf => h frame (List.mem_of_mem_tail hf)
  | enter => exact List.forall_mem_singleton.2 List.nodup_nil
  | reset => exact functional_empty
  | define f => exact h
  | declare x t =>
    change (s.declare x t).Functional
    unfold declare Functional at *
    cases hframes : s.frames with
    | nil => exact List.forall_mem_singleton.2 (by simp)
    | cons frame outer =>
      rw [hframes, List.forall_mem_cons] at h
      exact List.forall_mem_cons.2 ⟨nodup_bind h.1 x t, h.2⟩

theorem functional_after {s : Scope} (h : s.Functional) (ops : List Operation) :
    (s.after ops).Functional := by
  induction ops generalizing s with
  | nil => exact h
  | cons op ops ih => exact ih (h.apply op)

theorem functional_reached (ops : List Operation) : (reached ops).Functional :=
  functional_after functional_empty ops

theorem lookup_eq_none_iff_not_mem {frame : Variables} {x : String} :
    frame.lookup x = none ↔ x ∉ frame.map (·.1) := by
  rw [List.lookup_eq_none_iff]
  simp only [List.mem_map, not_exists, not_and, bne_iff_ne]
  exact forall₂_congr fun _ _ => ne_comm

/-- Hiding what is bound further inside leaves one entry for each name. -/
theorem nodup_visibleIn {frames : List Variables}
    (h : ∀ frame ∈ frames, (frame.map (·.1)).Nodup) : ((visibleIn frames).map (·.1)).Nodup := by
  induction frames with
  | nil => exact List.nodup_nil
  | cons frame outer ih =>
    obtain ⟨hframe, houter⟩ := List.forall_mem_cons.1 h
    rw [visibleIn, List.map_append, List.nodup_append]
    refine ⟨hframe, (ih houter).sublist (List.filter_sublist.map _), ?_⟩
    rintro x hx y hy rfl
    obtain ⟨v, hv, rfl⟩ := List.mem_map.1 hy
    have hfree := (List.mem_filter.1 hv).2
    rw [Option.isNone_iff_eq_none, lookup_eq_none_iff_not_mem] at hfree
    exact hfree hx

section

variable {s : Scope} (h : s.Functional)

include h

theorem Functional.mem_visible_iff {x : String} {t : ValueType} :
    (x, t) ∈ s.visible ↔ s.lookup? x = some t := by
  rw [← lookup_visible, visible, lookup_eq_some_iff_mem (nodup_visibleIn h)]

theorem Functional.mem_names_iff {x : String} :
    x ∈ s.visible.map (·.1) ↔ s.isDeclared x = true := by
  rw [isDeclared, Option.isSome_iff_exists]
  simp only [← h.mem_visible_iff, List.mem_map, Prod.exists, exists_and_right, exists_eq_right]

/-- The name has its type from the innermost frame that binds it. -/
theorem Functional.lookup?_eq_some_iff {x : String} {t : ValueType} :
    s.lookup? x = some t ↔ ∃ inner frame outer, s.frames = inner ++ frame :: outer ∧
      (x, t) ∈ frame ∧ ∀ shade ∈ inner, x ∉ shade.map (·.1) := by
  rw [lookup?, List.findSome?_eq_some_iff]
  refine exists_congr fun inner => exists_congr fun frame => exists_congr fun outer =>
    and_congr_right fun hframes => and_congr ?_ ?_
  · have hframe : frame ∈ s.frames := by rw [hframes]; simp
    exact lookup_eq_some_iff_mem (h frame hframe)
  · exact forall₂_congr fun _ _ => lookup_eq_none_iff_not_mem

end

/-! ## Blocks -/

/-- Inside of a block all frames that were there before are still there, under those of the block,
of which there is at least one. -/
theorem frames_after_push (s : Scope) {block : List Operation} (h : Balanced block)
    {front : List Operation} (hfront : front <+: block) :
    ∃ inner, (s.push.after front).frames = inner ++ s.frames ∧
      inner.length + front.count .pop = front.count .push + 1 := by
  induction front using List.reverseRecOn with
  | nil => exact ⟨[[]], rfl, rfl⟩
  | append_singleton front op ih =>
    have hshorter : front <+: block := (List.prefix_append front [op]).trans hfront
    have hop : op ∈ block := hfront.subset (by simp)
    obtain ⟨inner, hframes, hlength⟩ := ih hshorter
    -- the innermost frame is one of the block, so no operation reaches those below
    have hpos : 0 < inner.length := by
      have := h.above front hshorter
      omega
    obtain ⟨frame, inner, rfl⟩ := List.exists_cons_of_length_pos hpos
    rw [List.length_cons] at hlength
    rw [after_append, List.count_append, List.count_append]
    generalize s.push.after front = inside at hframes ⊢
    change ∃ inner, (inside.apply op).frames = _ ∧ _
    cases op with
    | push =>
      refine ⟨[] :: frame :: inner, congrArg ([] :: ·) hframes, ?_⟩
      change inner.length + 1 + 1 + (front.count .pop + 0) = front.count .push + 1 + 1
      omega
    | pop =>
      refine ⟨inner, congrArg List.tail hframes, ?_⟩
      change inner.length + (front.count .pop + 1) = front.count .push + 0 + 1
      omega
    | declare x t =>
      refine ⟨frame.bind x t :: inner, ?_, hlength⟩
      change (inside.declare x t).frames = _
      rw [declare, hframes]
      rfl
    | define f => exact ⟨frame :: inner, hframes, hlength⟩
    | enter => exact absurd hop h.kept.1
    | reset => exact absurd hop h.kept.2

/-- A block leaves the frames as they were. -/
theorem frames_after_block (s : Scope) {block : List Operation} (h : Balanced block) :
    (s.after (.push :: block ++ [.pop])).frames = s.frames := by
  obtain ⟨inner, hframes, hlength⟩ := frames_after_push s h List.prefix_rfl
  obtain ⟨frame, rfl⟩ := List.length_eq_one_iff.1 (show inner.length = 1 by have := h.closed; omega)
  rw [after_append]
  exact congrArg List.tail hframes

/-- However a scope came about, the list of what is visible holds a name if and only if the name is
declared, once, and with the type that looking it up finds, which is the one of the innermost frame
that binds the name; and a block leaves the list as it was. -/
theorem visible_agrees (ops : List Operation) :
    (∀ x, x ∈ (reached ops).visible.map (·.1) ↔ (reached ops).isDeclared x = true) ∧
    ((reached ops).visible.map (·.1)).Nodup ∧
    (∀ x t, (x, t) ∈ (reached ops).visible ↔ (reached ops).lookup? x = some t) ∧
    (∀ x t, (reached ops).lookup? x = some t ↔
      ∃ inner frame outer, (reached ops).frames = inner ++ frame :: outer ∧ (x, t) ∈ frame ∧
        ∀ shade ∈ inner, x ∉ shade.map (·.1)) ∧
    ∀ block, Balanced block →
      (reached (ops ++ .push :: block ++ [.pop])).visible = (reached ops).visible := by
  have h := functional_reached ops
  refine ⟨fun x => h.mem_names_iff, nodup_visibleIn h, fun x t => h.mem_visible_iff,
    fun x t => h.lookup?_eq_some_iff, fun block hblock => ?_⟩
  rw [List.append_assoc, reached, after_append]
  exact congrArg visibleIn (frames_after_block (reached ops) hblock)

/-- A name that is bound in three frames, one of them that of a block that is closed. -/
theorem visible_agrees_shadowed :
    Balanced [.declare "n" .decimal, .push, .declare "m" .boolean, .pop] ∧
    (reached ([.declare "n" .integer, .push, .declare "n" .text] ++
      .push :: [.declare "n" .decimal, .push, .declare "m" .boolean, .pop] ++ [.pop])).visible =
        [("n", .text)] := by
  have hblock : Balanced [.declare "n" .decimal, .push, .declare "m" .boolean, .pop] := by decide
  refine ⟨hblock, ?_⟩
  rw [(visible_agrees [.declare "n" .integer, .push, .declare "n" .text]).2.2.2.2 _ hblock]
  decide

end Courtesy.Scope
