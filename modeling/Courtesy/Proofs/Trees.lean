import Mathlib.Data.List.Basic
import Mathlib.Data.List.Induction
import Courtesy.Files.Disk
import Courtesy.Proofs.Tokens

/-!
# Sound trees

A tree is a list of entries, and only some lists are trees of a file system: the names have to be
names, what is below a place needs a directory there, and a place that has been given to a directory
still has one (`Tree.Sound`). What a place holds after an operation is stated for `get?`
(`Tree.get?_put`, `Tree.get?_putFolders`, `Tree.get?_putFile`), and the operations keep a tree sound
where they put nothing below a file and no file in place of a directory.
-/

namespace Courtesy

/-- What the file system accepts as the name of an entry. -/
structure Disk.IsName (name : String) : Prop where
  ne_empty : name ≠ ""
  ne_here : name ≠ "."
  ne_up : name ≠ ".."
  slashless : '/' ∉ name.toList
  noNul : '\x00' ∉ name.toList
  short : name.utf8ByteSize ≤ Disk.maxName

instance (name : String) : Decidable (Disk.IsName name) :=
  decidable_of_iff (name ≠ "" ∧ name ≠ "." ∧ name ≠ ".." ∧ '/' ∉ name.toList ∧
      '\x00' ∉ name.toList ∧ name.utf8ByteSize ≤ Disk.maxName)
    ⟨fun ⟨h₁, h₂, h₃, h₄, h₅, h₆⟩ => ⟨h₁, h₂, h₃, h₄, h₅, h₆⟩,
     fun ⟨h₁, h₂, h₃, h₄, h₅, h₆⟩ => ⟨h₁, h₂, h₃, h₄, h₅, h₆⟩⟩

theorem Place.prefix_dropLast {p q : Place} (hp : p ≠ []) (hq : q <+: p) (hne : q ≠ p) :
    q <+: p.dropLast := by
  rw [← List.dropLast_concat_getLast hp, List.prefix_concat_iff, List.dropLast_concat_getLast] at hq
  exact hq.resolve_left hne

namespace Tree

variable {t : Tree} {p q : Place} {e : Entry}

/-! ## What stands at a place -/

@[simp]
theorem get?_root (t : Tree) : t.get? [] = some .folder := rfl

theorem get?_eq_lookup (t : Tree) (hp : p ≠ []) : t.get? p = t.entries.lookup p := if_neg hp

theorem mem_of_get? (hp : p ≠ []) (h : t.get? p = some e) : (p, e) ∈ t.entries := by
  rw [get?_eq_lookup t hp] at h
  exact mem_of_lookup h

theorem isSome_get?_of_mem (h : (p, e) ∈ t.entries) : (t.get? p).isSome := by
  rcases Decidable.em (p = []) with rfl | hp
  · rfl
  · rw [get?_eq_lookup t hp, Option.isSome_iff_ne_none]
    intro hnone
    have := List.lookup_eq_none_iff.1 hnone (p, e) h
    simp at this

theorem lookup_cons_place (r : Place) (f : Entry) (l : List (Place × Entry)) (q : Place) :
    ((r, f) :: l).lookup q = if q = r then some f else l.lookup q := by
  rw [List.lookup_cons]
  by_cases hq : q = r
  · rw [if_pos hq, beq_iff_eq.2 hq]
  · rw [if_neg hq, beq_eq_false_iff_ne.2 hq]

theorem lookup_insertInto (p : Place) (e : Entry) (l : List (Place × Entry)) (q : Place) :
    (insertInto p e l).lookup q = if q = p then some e else l.lookup q := by
  induction l with
  | nil => exact lookup_cons_place p e [] q
  | cons entry l ih =>
    obtain ⟨r, f⟩ := entry
    rw [insertInto]
    split
    · rename_i hpr
      subst hpr
      rw [lookup_cons_place, lookup_cons_place]
      split <;> rfl
    · rename_i hpr
      split
      · exact lookup_cons_place p e _ q
      · rw [lookup_cons_place, lookup_cons_place, ih]
        by_cases hq : q = r
        · rw [if_pos hq, if_pos hq, if_neg (hq ▸ Ne.symm hpr)]
        · rw [if_neg hq, if_neg hq]

theorem get?_put (t : Tree) (hp : p ≠ []) (e : Entry) (q : Place) :
    (t.put p e).get? q = if q = p then some e else t.get? q := by
  rcases Decidable.em (q = []) with rfl | hq
  · rw [get?_root, get?_root, if_neg (Ne.symm hp)]
  · rw [get?_eq_lookup _ hq, get?_eq_lookup _ hq, put, lookup_insertInto]

theorem mem_insertInto {l : List (Place × Entry)} {entry : Place × Entry}
    (h : entry ∈ insertInto p e l) : entry = (p, e) ∨ entry ∈ l := by
  induction l with
  | nil => exact .inl (List.mem_singleton.1 h)
  | cons head l ih =>
    rw [insertInto] at h
    split at h
    · exact (List.mem_cons.1 h).imp_right (List.mem_cons_of_mem _)
    · split at h
      · exact List.mem_cons.1 h
      · rcases List.mem_cons.1 h with rfl | h
        · exact .inr List.mem_cons_self
        · exact (ih h).imp_right (List.mem_cons_of_mem _)

theorem putFolders_concat (t : Tree) (p : Place) (name : String) :
    t.putFolders (p ++ [name]) =
      if ((t.putFolders p).get? (p ++ [name])).isSome then t.putFolders p
      else (t.putFolders p).put (p ++ [name]) .folder := by
  have htake : ∀ i ∈ List.range p.length, (p ++ [name]).take (i + 1) = p.take (i + 1) := by
    intro i hi
    have := List.mem_range.1 hi
    exact List.take_append_of_le_length (by omega)
  have hall : (p ++ [name]).take (p.length + 1) = p ++ [name] := by
    apply List.take_of_length_le
    simp
  unfold putFolders
  dsimp only
  rw [List.length_append, List.length_singleton, List.range_succ, List.foldl_append,
    List.foldl_cons, List.foldl_nil, hall, List.foldl_ext _ _ t fun t i hi => by rw [htake i hi]]

/-- A directory stands at every place that leads to `p`, unless something stood there before. -/
theorem get?_putFolders (t : Tree) (p q : Place) :
    (t.putFolders p).get? q = if q <+: p then some ((t.get? q).getD .folder) else t.get? q := by
  induction p using List.reverseRecOn with
  | nil =>
    by_cases hq : q = []
    · simp [hq, putFolders]
    · simp [hq, putFolders]
  | append_singleton p name ih =>
    have hself : ¬ p ++ [name] <+: p := by
      intro h
      have := h.length_le
      rw [List.length_append, List.length_singleton] at this
      omega
    rw [putFolders_concat]
    by_cases hq : q = p ++ [name]
    · subst hq
      rw [if_pos List.prefix_rfl]
      rw [if_neg hself] at ih
      split
      · rename_i hsome
        obtain ⟨e, he⟩ := Option.isSome_iff_exists.1 hsome
        rw [he, ← ih, he, Option.getD_some]
      · rename_i hnone
        rw [ih, Option.not_isSome_iff_eq_none] at hnone
        rw [get?_put _ (by simp), if_pos rfl, hnone, Option.getD_none]
    · have hiff : q <+: p ++ [name] ↔ q <+: p := by
        rw [List.prefix_concat_iff]
        exact or_iff_right hq
      simp only [hiff]
      split
      · exact ih
      · rw [get?_put _ (by simp), if_neg hq, ih]

theorem mem_putFolders (h : (q, e) ∈ (t.putFolders p).entries) :
    (q, e) ∈ t.entries ∨ q <+: p ∧ e = .folder := by
  induction p using List.reverseRecOn with
  | nil => exact .inl h
  | append_singleton p name ih =>
    have hlift : (q, e) ∈ (t.putFolders p).entries →
        (q, e) ∈ t.entries ∨ q <+: p ++ [name] ∧ e = .folder := by
      intro h
      exact (ih h).imp_right fun ⟨hq, he⟩ => ⟨hq.trans (List.prefix_append p [name]), he⟩
    rw [putFolders_concat] at h
    split at h
    · exact hlift h
    · rcases mem_insertInto h with h | h
      · cases h
        exact .inr ⟨List.prefix_rfl, rfl⟩
      · exact hlift h

theorem mem_below {t : Tree} {p q : Place} {e : Entry} :
    (q, e) ∈ t.below p ↔ q ≠ [] ∧ (p ++ q, e) ∈ t.entries := by
  unfold below
  rw [List.mem_filterMap]
  constructor
  · rintro ⟨⟨r, f⟩, hmem, h⟩
    dsimp only at h
    split at h
    · rename_i hcond
      rw [Bool.and_eq_true, List.isPrefixOf_iff_prefix, decide_eq_true_iff] at hcond
      obtain ⟨⟨rest, rfl⟩, hlen⟩ := hcond
      rw [List.drop_left] at h
      cases h
      refine ⟨?_, hmem⟩
      rintro rfl
      simp at hlen
    · cases h
  · rintro ⟨hq, hmem⟩
    refine ⟨(p ++ q, e), hmem, ?_⟩
    have hlen : 0 < q.length := List.length_pos_iff.2 hq
    have hcond : (p.isPrefixOf (p ++ q) && decide (p.length < (p ++ q).length)) = true := by
      rw [Bool.and_eq_true, List.isPrefixOf_iff_prefix, decide_eq_true_iff, List.length_append]
      exact ⟨List.prefix_append p q, by omega⟩
    dsimp only
    rw [if_pos hcond, List.drop_left]

/-! ## Sound trees -/

structure Sound (t : Tree) : Prop where
  named : ∀ p e, (p, e) ∈ t.entries → ∀ name ∈ p, Disk.IsName name
  parent : ∀ p name e, (p ++ [name], e) ∈ t.entries → t.get? p = some .folder
  folder : ∀ p, (p, .folder) ∈ t.entries → t.get? p = some .folder

theorem sound_iff : t.Sound ↔ ∀ x ∈ t.entries, (∀ name ∈ x.1, Disk.IsName name) ∧
    (x.1 ≠ [] → t.get? x.1.dropLast = some .folder) ∧
    (x.2 = .folder → t.get? x.1 = some .folder) := by
  constructor
  · intro h x hx
    refine ⟨h.named x.1 x.2 hx, ?_, ?_⟩
    · intro hne
      apply h.parent _ (x.1.getLast hne) x.2
      rwa [List.dropLast_concat_getLast hne]
    · intro hfolder
      exact h.folder x.1 (hfolder ▸ hx)
  · intro h
    refine ⟨fun p e hmem => (h (p, e) hmem).1, ?_, fun p hmem => (h (p, .folder) hmem).2.2 rfl⟩
    intro p name e hmem
    have hparent := (h (p ++ [name], e) hmem).2.1 (by simp)
    rwa [List.dropLast_concat] at hparent

instance : Decidable t.Sound := decidable_of_iff _ sound_iff.symm

namespace Sound

theorem isName (h : t.Sound) (hp : (t.get? p).isSome) : ∀ name ∈ p, Disk.IsName name := by
  rcases Decidable.em (p = []) with rfl | hne
  · simp
  · obtain ⟨e, he⟩ := Option.isSome_iff_exists.1 hp
    exact h.named p e (mem_of_get? hne he)

/-- Everything above an entry is a directory. -/
theorem above (h : t.Sound) (hq : q ≠ []) (hp : (t.get? (p ++ q)).isSome) :
    t.get? p = some .folder := by
  induction q using List.reverseRecOn with
  | nil => exact absurd rfl hq
  | append_singleton q name ih =>
    rw [← List.append_assoc] at hp
    obtain ⟨e, he⟩ := Option.isSome_iff_exists.1 hp
    have hparent : t.get? (p ++ q) = some .folder := h.parent _ name e (mem_of_get? (by simp) he)
    rcases Decidable.em (q = []) with rfl | hne
    · rwa [List.append_nil] at hparent
    · apply ih hne
      rw [hparent]
      rfl

theorem isSome_above (h : t.Sound) (hpq : p <+: q) (hq : (t.get? q).isSome) :
    (t.get? p).isSome := by
  obtain ⟨rest, rfl⟩ := hpq
  rcases Decidable.em (rest = []) with rfl | hne
  · rwa [List.append_nil] at hq
  · rw [h.above hne hq]
    rfl

/-- There is nothing below a file. -/
theorem eq_of_below_file (h : t.Sound) {content : String} (hp : t.get? p = some (.file content))
    (hpq : p <+: q) (hq : (t.get? q).isSome) : q = p := by
  obtain ⟨rest, rfl⟩ := hpq
  rcases Decidable.em (rest = []) with rfl | hne
  · rw [List.append_nil]
  · have := h.above hne hq
    rw [hp] at this
    cases this

theorem putFolders (h : t.Sound) (hnames : ∀ name ∈ p, Disk.IsName name)
    (hfree : ∀ q, q <+: p → ∀ content, t.get? q ≠ some (.file content)) :
    (t.putFolders p).Sound := by
  have hfolder : ∀ q, q <+: p → (t.putFolders p).get? q = some .folder := by
    intro q hq
    rw [get?_putFolders, if_pos hq]
    cases he : t.get? q with
    | none => rfl
    | some e =>
      cases e with
      | folder => rfl
      | file content => exact absurd he (hfree q hq content)
  have hkept : ∀ q, t.get? q = some .folder → (t.putFolders p).get? q = some .folder := by
    intro q hq
    rw [get?_putFolders, hq]
    split <;> rfl
  refine ⟨?_, ?_, ?_⟩
  · intro q e hmem name hname
    rcases mem_putFolders hmem with hmem | ⟨hq, -⟩
    · exact h.named q e hmem name hname
    · exact hnames name (hq.subset hname)
  · intro q name e hmem
    rcases mem_putFolders hmem with hmem | ⟨hq, -⟩
    · exact hkept q (h.parent q name e hmem)
    · exact hfolder q ((List.prefix_append q [name]).trans hq)
  · intro q hmem
    rcases mem_putFolders hmem with hmem | ⟨hq, -⟩
    · exact hkept q (h.folder q hmem)
    · exact hfolder q hq

theorem put (h : t.Sound) (hp : p ≠ []) (hnames : ∀ name ∈ p, Disk.IsName name)
    (hparent : t.get? p.dropLast = some .folder) (hfree : t.get? p ≠ some .folder) (e : Entry) :
    (t.put p e).Sound := by
  have hkept : ∀ q, t.get? q = some .folder → (t.put p e).get? q = some .folder := by
    intro q hq
    rw [get?_put t hp, if_neg, hq]
    rintro rfl
    exact hfree hq
  refine ⟨?_, ?_, ?_⟩
  · intro q f hmem name hname
    rcases mem_insertInto hmem with hmem | hmem
    · cases hmem
      exact hnames name hname
    · exact h.named q f hmem name hname
  · intro q name f hmem
    apply hkept
    rcases mem_insertInto hmem with hmem | hmem
    · cases hmem
      rwa [List.dropLast_concat] at hparent
    · exact h.parent q name f hmem
  · intro q hmem
    rcases mem_insertInto hmem with hmem | hmem
    · cases hmem
      rw [get?_put t hp, if_pos rfl]
    · exact hkept q (h.folder q hmem)

end Sound

/-! ## Files with the directories that lead to them -/

/-- A file can be put at a place: no file stands above it and no directory at it. -/
structure Free (t : Tree) (p : Place) : Prop where
  above : ∀ q, q <+: p → q ≠ p → ∀ content, t.get? q ≠ some (.file content)
  here : t.get? p ≠ some .folder

theorem Free.ne_root (h : t.Free p) : p ≠ [] := by
  rintro rfl
  exact h.here rfl

theorem get?_putFile (h : t.Free p) (content : String) (q : Place) :
    (t.putFile p content).get? q =
      if q = p then some (.file content) else if q <+: p then some .folder else t.get? q := by
  rw [putFile, get?_put _ h.ne_root, get?_putFolders]
  by_cases hqp : q = p
  · rw [if_pos hqp, if_pos hqp]
  · have hiff : q <+: p.dropLast ↔ q <+: p :=
      ⟨fun hq => hq.trans (List.dropLast_prefix p),
        fun hq => Place.prefix_dropLast h.ne_root hq hqp⟩
    rw [if_neg hqp, if_neg hqp]
    simp only [hiff]
    by_cases hq : q <+: p
    · rw [if_pos hq, if_pos hq]
      cases he : t.get? q with
      | none => rfl
      | some e =>
        cases e with
        | folder => rfl
        | file content => exact absurd he (h.above q hq hqp content)
    · rw [if_neg hq, if_neg hq]

theorem Sound.putFile (hs : t.Sound) (h : t.Free p) (hnames : ∀ name ∈ p, Disk.IsName name)
    (content : String) : (t.putFile p content).Sound := by
  have hlen : ¬ p <+: p.dropLast := by
    intro hle
    have := hle.length_le
    have := List.length_pos_iff.2 h.ne_root
    rw [List.length_dropLast] at *
    omega
  have hfree : ∀ q, q <+: p.dropLast → ∀ content, t.get? q ≠ some (.file content) := by
    intro q hq
    apply h.above q (hq.trans (List.dropLast_prefix p))
    rintro rfl
    exact hlen hq
  have hsound : (t.putFolders p.dropLast).Sound :=
    hs.putFolders (fun name hname => hnames name (List.dropLast_subset p hname)) hfree
  apply hsound.put h.ne_root hnames
  · rw [get?_putFolders, if_pos List.prefix_rfl]
    cases he : t.get? p.dropLast with
    | none => rfl
    | some e =>
      cases e with
      | folder => rfl
      | file content => exact absurd he (hfree _ List.prefix_rfl content)
  · rw [get?_putFolders, if_neg]
    · exact h.here
    · exact hlen

end Tree

end Courtesy
