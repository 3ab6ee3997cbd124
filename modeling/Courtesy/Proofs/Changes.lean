import Courtesy.Proofs.Paths
import Courtesy.Watch.Watcher

/-!
# Changes that add to a tree

Files are created and overwritten, directories are made, and directories arrive with the files in
them (`Change.Adds`). Such a change keeps a tree sound (`Change.Adds.sound`), happens at or below
one place (`Change.Adds.get?_outside`) and leaves every entry an entry of its kind
(`Change.Adds.grown`), so that a path goes on leading to the same place (`Disk.Leads.grown`).
-/

namespace Courtesy

/-! ## Trees that grow -/

/-- What stands in a tree stands in another one too; files may have other contents there. -/
structure Tree.Grown (t t' : Tree) : Prop where
  folder : ∀ p, t.get? p = some .folder → t'.get? p = some .folder
  file : ∀ p content, t.get? p = some (.file content) →
    ∃ content', t'.get? p = some (.file content')

namespace Tree

variable {t t' : Tree} {p q : Place}

theorem Grown.isSome (h : t.Grown t') (hp : (t.get? p).isSome) : (t'.get? p).isSome := by
  obtain ⟨e, he⟩ := Option.isSome_iff_exists.1 hp
  cases e with
  | folder =>
    rw [h.folder p he]
    rfl
  | file content =>
    obtain ⟨content', hc⟩ := h.file p content he
    rw [hc]
    rfl

end Tree

namespace Disk

variable {d : Disk} {t : Tree} {p q : Place} {path : String}

theorem follow_grown {t' : Tree} {names : List String} (h : t.Grown t')
    (hp : follow t p names = .ok q) : follow t' p names = .ok q := by
  induction names generalizing p with
  | nil => exact hp
  | cons name names ih =>
    rw [follow, except_bind_ok] at hp ⊢
    obtain ⟨a, ha, hq⟩ := hp
    obtain ⟨hfolder, hstep⟩ := step_eq_ok_iff.1 ha
    refine ⟨a, step_eq_ok_iff.2 ⟨h.folder p hfolder, ?_⟩, ih hq⟩
    refine hstep.imp_right (Or.imp_right ?_)
    rintro ⟨h₁, h₂, h₃, hsome, h₄⟩
    exact ⟨h₁, h₂, h₃, h.isSome hsome, h₄⟩

theorem Leads.grown (h : d.tree.Grown t) (hp : d.Leads path p) :
    { d with tree := t }.Leads path p :=
  follow_grown h hp

theorem lookup_folder_grown (h : d.tree.Grown t) (hp : d.lookup path = .ok (p, .folder)) :
    { d with tree := t }.lookup path = .ok (p, .folder) := by
  obtain ⟨husable, hleads, hget, hnames⟩ := lookup_eq_ok_iff.1 hp
  exact lookup_eq_ok_iff.2 ⟨husable, hleads.grown h, h.folder p hget, hnames⟩

theorem lookup_file_grown {content content' : String}
    (h : d.tree.Grown t) (hp : d.lookup path = .ok (p, .file content))
    (hc : t.get? p = some (.file content')) :
    { d with tree := t }.lookup path = .ok (p, .file content') := by
  obtain ⟨husable, hleads, -, hnames⟩ := lookup_eq_ok_iff.1 hp
  exact lookup_eq_ok_iff.2 ⟨husable, hleads.grown h, hc, fun _ => hnames nofun⟩

end Disk

/-! ## Adding changes -/

/-- An entry can be put at a place: it has a name, and a directory to stand in. -/
def Tree.HasRoom (t : Tree) (p : Place) : Prop :=
  p ≠ [] ∧ t.get? p.dropLast = some .folder ∧ ∀ name ∈ p.getLast?, Disk.IsName name

instance (t : Tree) (p : Place) : Decidable (t.HasRoom p) :=
  inferInstanceAs (Decidable (_ ∧ _ ∧ ∀ name ∈ p.getLast?, _))

namespace Change

/-- The place at which a change happens. -/
def place : Change → Place
  | putFile p _ => p
  | putTree p _ => p
  | makeFolder p => p
  | remove p => p

/-- A change that adds to a tree. A file takes no directory's place, and a directory takes no place
at all that is taken. The files that come with a directory do not stand below each other. -/
def Adds (t : Tree) : Change → Prop
  | putFile p _ => t.HasRoom p ∧ t.get? p ≠ some .folder
  | makeFolder p => t.HasRoom p ∧ t.get? p = none
  | putTree p files => t.HasRoom p ∧ t.get? p = none ∧
    (∀ f ∈ files, f.1 ≠ [] ∧ ∀ name ∈ f.1, Disk.IsName name) ∧
    ∀ f ∈ files, ∀ g ∈ files, f.1 <+: g.1 → f.1 = g.1
  | remove _ => False

instance (t : Tree) : (c : Change) → Decidable (c.Adds t)
  | putFile _ _ => inferInstanceAs (Decidable (_ ∧ _))
  | makeFolder _ => inferInstanceAs (Decidable (_ ∧ _))
  | putTree _ files => inferInstanceAs (Decidable (_ ∧ _ ∧ (∀ f ∈ files, _) ∧ ∀ f ∈ files, _))
  | remove _ => inferInstanceAs (Decidable False)

end Change

namespace Tree

variable {t : Tree} {p q : Place}

theorem HasRoom.isName (hs : t.Sound) (h : t.HasRoom p) : ∀ name ∈ p, Disk.IsName name := by
  obtain ⟨hp, hparent, hlast⟩ := h
  intro name hname
  rw [← List.dropLast_concat_getLast hp, List.mem_append] at hname
  rcases hname with hname | hname
  · exact hs.isName (hparent ▸ rfl) name hname
  · exact hlast name (List.mem_singleton.1 hname ▸ List.getLast?_eq_some_getLast hp)

/-- Above a place with room there are directories. -/
theorem HasRoom.above (hs : t.Sound) (h : t.HasRoom p) (hq : q <+: p) (hne : q ≠ p) :
    t.get? q = some .folder := by
  obtain ⟨hp, hparent, -⟩ := h
  obtain ⟨rest, hrest⟩ := Place.prefix_dropLast hp hq hne
  rcases Decidable.em (rest = []) with rfl | hrest'
  · rwa [← hrest, List.append_nil] at hparent
  · apply hs.above hrest'
    rw [hrest, hparent]
    rfl

theorem HasRoom.free (hs : t.Sound) (h : t.HasRoom p) (hfree : t.get? p ≠ some .folder) :
    t.Free p := by
  refine ⟨?_, hfree⟩
  intro q hq hne content
  rw [h.above hs hq hne]
  nofun

/-- There is nothing below a place at which there is nothing. -/
theorem Sound.get?_below (hs : t.Sound) (hp : t.get? p = none) (hq : p <+: q) :
    t.get? q = none := by
  rw [← Option.not_isSome_iff_eq_none] at hp ⊢
  exact fun h => hp (hs.isSome_above hq h)

theorem Sound.remove_of_none (hs : t.Sound) (hp : t.get? p = none) : t.remove p = t := by
  unfold remove
  rw [List.filter_eq_self.2]
  intro entry hmem
  rw [Bool.not_eq_true', Bool.eq_false_iff, Ne, List.isPrefixOf_iff_prefix]
  intro hle
  have := isSome_get?_of_mem hmem
  rw [hs.get?_below hp hle] at this
  cases this

theorem Sound.putFile_room (hs : t.Sound) (h : t.HasRoom p) (hfree : t.get? p ≠ some .folder)
    (content : String) : (t.putFile p content).Sound :=
  hs.putFile (h.free hs hfree) (h.isName hs) content

theorem get?_putFile_room (hs : t.Sound) (h : t.HasRoom p) (hfree : t.get? p ≠ some .folder)
    (content : String) (q : Place) :
    (t.putFile p content).get? q = if q = p then some (.file content) else t.get? q := by
  rw [get?_putFile (h.free hs hfree)]
  by_cases hqp : q = p
  · rw [if_pos hqp, if_pos hqp]
  · rw [if_neg hqp, if_neg hqp]
    split
    · rename_i hq
      exact (h.above hs hq hqp).symm
    · rfl

theorem Sound.putFolders_room (hs : t.Sound) (h : t.HasRoom p) (hp : t.get? p = none) :
    (t.putFolders p).Sound := by
  apply hs.putFolders (h.isName hs)
  intro q hq content
  rcases Decidable.em (q = p) with rfl | hne
  · rw [hp]
    nofun
  · rw [h.above hs hq hne]
    nofun

theorem get?_putFolders_room (hs : t.Sound) (h : t.HasRoom p) (hp : t.get? p = none) (q : Place) :
    (t.putFolders p).get? q = if q = p then some .folder else t.get? q := by
  rw [get?_putFolders]
  by_cases hqp : q = p
  · rw [if_pos hqp, if_pos (hqp ▸ List.prefix_rfl), hqp, hp]
    rfl
  · rw [if_neg hqp]
    split
    · rename_i hq
      rw [h.above hs hq hqp]
      rfl
    · rfl

/-! ## A directory that arrives with files -/

/-- One file of a directory that arrives: it makes room for the others and changes
nothing outside. -/
theorem get?_putFile_below (hs : t.Sound) (hp : t.get? p = some .folder) {rel : Place}
    (hfree : t.Free (p ++ rel)) (content : String) (hq : ¬ p <+: q) :
    (t.putFile (p ++ rel) content).get? q = t.get? q := by
  rw [get?_putFile hfree, if_neg]
  · split
    · rename_i hle
      rcases List.prefix_or_prefix_of_prefix hle (List.prefix_append p rel) with hqp | hpq
      · obtain ⟨rest, rfl⟩ := hqp
        rcases Decidable.em (rest = []) with rfl | hrest
        · exact absurd (by simp) hq
        · exact (hs.above hrest (hp ▸ rfl)).symm
      · exact absurd hpq hq
    · rfl
  · rintro rfl
    exact hq (List.prefix_append p rel)

theorem Free.putFile_below {rel other : Place} {content : String} (hrel : t.Free (p ++ rel))
    (hother : t.Free (p ++ other)) (hle : rel <+: other → rel = other)
    (hge : other <+: rel → other = rel) : (t.putFile (p ++ rel) content).Free (p ++ other) := by
  constructor
  · intro q hq hne c
    rw [get?_putFile hrel]
    split
    · rename_i heq
      subst heq
      exact absurd (by rw [hle (List.prefix_append_right_inj p |>.1 hq)]) hne
    · split
      · nofun
      · exact hother.above q hq hne c
  · rw [get?_putFile hrel]
    split
    · nofun
    · rename_i hne
      split
      · rename_i hle
        exact absurd (by rw [hge (List.prefix_append_right_inj p |>.1 hle)]) hne
      · exact hother.here

/-- What the files of an arriving directory leave alone. -/
structure Filled (p : Place) (t t' : Tree) : Prop where
  sound : t'.Sound
  folder : t'.get? p = some .folder
  outside : ∀ q, ¬ p <+: q → t'.get? q = t.get? q

theorem filled_putFiles {files : List (Place × String)} (hs : t.Sound)
    (hp : t.get? p = some .folder) (hnames : ∀ f ∈ files, f.1 ≠ [] ∧ ∀ name ∈ f.1, Disk.IsName name)
    (happart : ∀ f ∈ files, ∀ g ∈ files, f.1 <+: g.1 → f.1 = g.1)
    (hfree : ∀ f ∈ files, t.Free (p ++ f.1)) :
    Filled p t (files.foldl (fun t (q, content) => t.putFile (p ++ q) content) t) := by
  induction files generalizing t with
  | nil => exact ⟨hs, hp, fun _ _ => rfl⟩
  | cons f files ih =>
    have hhead : t.Free (p ++ f.1) := hfree f List.mem_cons_self
    have hname : ∀ name ∈ p ++ f.1, Disk.IsName name := by
      intro name hname
      rcases List.mem_append.1 hname with hname | hname
      · exact hs.isName (hp ▸ rfl) name hname
      · exact (hnames f List.mem_cons_self).2 name hname
    have hfolder : (t.putFile (p ++ f.1) f.2).get? p = some .folder := by
      rw [get?_putFile hhead, if_neg, if_pos (List.prefix_append p f.1)]
      exact fun heq => (hnames f List.mem_cons_self).1 (List.self_eq_append_right.1 heq)
    have hrest : ∀ g ∈ files, (t.putFile (p ++ f.1) f.2).Free (p ++ g.1) := by
      intro g hg
      exact hhead.putFile_below (hfree g (List.mem_cons_of_mem f hg))
        (happart f List.mem_cons_self g (List.mem_cons_of_mem f hg))
        (happart g (List.mem_cons_of_mem f hg) f List.mem_cons_self)
    have hfilled := ih (hs.putFile hhead hname f.2) hfolder
      (fun g hg => hnames g (List.mem_cons_of_mem f hg))
      (fun g hg g' hg' =>
        happart g (List.mem_cons_of_mem f hg) g' (List.mem_cons_of_mem f hg')) hrest
    refine ⟨hfilled.sound, hfilled.folder, ?_⟩
    intro q hq
    exact (hfilled.outside q hq).trans (get?_putFile_below hs hp hhead f.2 hq)

end Tree

namespace Change

variable {t : Tree} {c : Change} {p q : Place}

theorem filled_putTree {files : List (Place × String)} (hs : t.Sound)
    (h : (putTree p files).Adds t) : Tree.Filled p t ((putTree p files).apply t) := by
  obtain ⟨hroom, hnone, hnames, happart⟩ := h
  have hget := Tree.get?_putFolders_room hs hroom hnone
  have hfilled : Tree.Filled p (t.putFolders p) ((putTree p files).apply t) := by
    rw [apply, hs.remove_of_none hnone]
    apply Tree.filled_putFiles (hs.putFolders_room hroom hnone) _ hnames happart
    · intro f hf
      have hbelow : p ++ f.1 ≠ p := fun heq => (hnames f hf).1 (List.append_right_eq_self.1 heq)
      constructor
      · intro q hq hne content
        rw [hget]
        split
        · nofun
        · rename_i hqp
          rcases List.prefix_or_prefix_of_prefix hq (List.prefix_append p f.1) with hqp' | hpq
          · rw [hroom.above hs hqp' hqp]
            nofun
          · rw [hs.get?_below hnone hpq]
            nofun
      · rw [hget, if_neg hbelow, hs.get?_below hnone (List.prefix_append p f.1)]
        nofun
    · rw [hget, if_pos rfl]
  refine ⟨hfilled.sound, hfilled.folder, ?_⟩
  intro q hq
  rw [hfilled.outside q hq, hget, if_neg]
  rintro rfl
  exact hq List.prefix_rfl

namespace Adds

theorem hasRoom (h : c.Adds t) : t.HasRoom c.place := by
  cases c with
  | putFile p content => exact h.1
  | makeFolder p => exact h.1
  | putTree p files => exact h.1
  | remove p => exact h.elim

theorem sound (hs : t.Sound) (h : c.Adds t) : (c.apply t).Sound := by
  cases c with
  | putFile p content => exact hs.putFile_room h.1 h.2 content
  | makeFolder p => exact hs.putFolders_room h.1 h.2
  | putTree p files => exact (filled_putTree hs h).sound
  | remove p => exact h.elim

theorem get?_outside (hs : t.Sound) (h : c.Adds t) (hq : ¬ c.place <+: q) :
    (c.apply t).get? q = t.get? q := by
  have hne : q ≠ c.place := by
    rintro rfl
    exact hq List.prefix_rfl
  cases c with
  | putFile p content => exact (Tree.get?_putFile_room hs h.1 h.2 content q).trans (if_neg hne)
  | makeFolder p => exact (Tree.get?_putFolders_room hs h.1 h.2 q).trans (if_neg hne)
  | putTree p files => exact (filled_putTree hs h).outside q hq
  | remove p => exact h.elim

/-- At its place a change leaves a file, which may have stood there before, or a new directory. -/
theorem get?_place (hs : t.Sound) (h : c.Adds t) :
    t.get? c.place ≠ some .folder ∧ (∃ content, (c.apply t).get? c.place = some (.file content)) ∨
      t.get? c.place = none ∧ (c.apply t).get? c.place = some .folder := by
  cases c with
  | putFile p content =>
    exact .inl ⟨h.2, content, (Tree.get?_putFile_room hs h.1 h.2 content p).trans (if_pos rfl)⟩
  | makeFolder p => exact .inr ⟨h.2, (Tree.get?_putFolders_room hs h.1 h.2 p).trans (if_pos rfl)⟩
  | putTree p files => exact .inr ⟨h.2.1, (filled_putTree hs h).folder⟩
  | remove p => exact h.elim

/-- What stood at another place still stands there. -/
theorem get?_kept (hs : t.Sound) (h : c.Adds t) {e : Entry} (hq : t.get? q = some e)
    (hne : q ≠ c.place) : (c.apply t).get? q = some e := by
  rw [h.get?_outside hs, hq]
  intro hle
  have hsome := hs.isSome_above hle (hq ▸ rfl)
  rcases h.get?_place hs with ⟨hfolder, -⟩ | ⟨hnone, -⟩
  · obtain ⟨e', he'⟩ := Option.isSome_iff_exists.1 hsome
    cases e' with
    | folder => exact hfolder he'
    | file content => exact hne (hs.eq_of_below_file he' hle (hq ▸ rfl))
  · rw [hnone] at hsome
    cases hsome

theorem grown (hs : t.Sound) (h : c.Adds t) : t.Grown (c.apply t) := by
  constructor
  · intro p hp
    apply h.get?_kept hs hp
    rintro rfl
    rcases h.get?_place hs with ⟨hfolder, -⟩ | ⟨hnone, -⟩
    · exact hfolder hp
    · rw [hnone] at hp
      cases hp
  · intro p content hp
    rcases Decidable.em (p = c.place) with rfl | hne
    · rcases h.get?_place hs with ⟨-, hfile⟩ | ⟨hnone, -⟩
      · exact hfile
      · rw [hnone] at hp
        cases hp
    · exact ⟨content, h.get?_kept hs hp hne⟩

/-- A new directory comes with one that arrives at the place of the change. -/
theorem of_new_folder (hs : t.Sound) (h : c.Adds t) (hq : t.get? q ≠ some .folder)
    (hq' : (c.apply t).get? q = some .folder) :
    c.place <+: q ∧ t.get? c.place = none ∧ (c.apply t).get? c.place = some .folder := by
  have hle : c.place <+: q := by
    apply Decidable.byContradiction
    intro hle
    rw [h.get?_outside hs hle] at hq'
    exact hq hq'
  refine ⟨hle, ?_⟩
  rcases h.get?_place hs with ⟨-, content, hfile⟩ | harrives
  · have := (h.sound hs).eq_of_below_file hfile hle (hq' ▸ rfl)
    rw [this, hfile] at hq'
    cases hq'
  · exact harrives

end Adds

end Change

end Courtesy
