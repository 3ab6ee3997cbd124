import Courtesy.Proofs.Changes

/-!
# The place of a path

There are no links on a disk, so a path and the working directory alone decide which place the path
can lead to (`Disk.placeOf`, `Disk.Leads.eq_placeOf`). A shortened path has its `..` elements in
front (`Path.cleanElements_ups`). On a sound disk it therefore leads to its place as soon as
something stands there, and what it reads is the file at this place
(`Disk.Sound.content?_eq_some_iff`). So two disks with the same file at the place of a path read the
same under it (`Disk.Sound.content?_congr`).
-/

namespace Courtesy

/-! ## Walking along names -/

namespace Place

/-- One name further from a place, whatever stands there. -/
def enter (p : Place) (name : String) : Place :=
  if name = "." then p else if name = ".." then p.dropLast else p ++ [name]

/-- The place that names lead to from a place, whatever stands there. -/
def walk (p : Place) (names : List String) : Place := names.foldl enter p

theorem walk_append (p : Place) (ns ms : List String) :
    walk p (ns ++ ms) = walk (walk p ns) ms := List.foldl_append

theorem walk_plain {p : Place} {ns : List String} (h : ∀ n ∈ ns, n ≠ "." ∧ n ≠ "..") :
    walk p ns = p ++ ns := by
  induction ns generalizing p with
  | nil => exact (List.append_nil p).symm
  | cons n ns ih =>
    obtain ⟨⟨hhere, hup⟩, hrest⟩ := List.forall_mem_cons.1 h
    show walk (enter p n) ns = p ++ n :: ns
    rw [ih hrest, enter, if_neg hhere, if_neg hup, List.append_assoc, List.singleton_append]

end Place

/-! ## The elements of a path -/

namespace Path

open Text

/-- What can stand between two slashes and means itself. -/
structure IsElement (name : String) : Prop where
  ne_empty : name ≠ ""
  ne_here : name ≠ "."
  ne_up : name ≠ ".."
  slashless : '/' ∉ name.toList

theorem exists_last (path : String) :
    ∃ front name, elements path = front ++ [name] ∧ '/' ∉ name.toList ∧
      (path = name ∨ ∃ a, path = a ++ "/" ++ name) := by
  by_cases hslash : '/' ∈ path.toList
  · -- Cut the path at its last slash.
    obtain ⟨back, front, hcut, hback⟩ := List.eq_append_cons_of_mem (List.mem_reverse.2 hslash)
    have hpath : path = String.ofList front.reverse ++ "/" ++ String.ofList back.reverse := by
      apply String.toList_injective
      rw [← List.reverse_reverse path.toList, hcut]
      simp
    have hname : '/' ∉ (String.ofList back.reverse).toList := by
      rw [String.toList_ofList, List.mem_reverse]
      exact hback
    refine ⟨elements (String.ofList front.reverse), _, ?_, hname, .inr ⟨_, hpath⟩⟩
    rw [hpath, elements_slash, elements_of_slashless hname]
  · exact ⟨[], path, elements_of_slashless hslash, hslash, .inl rfl⟩

/-- A path that ends in a text without a slash has a last element that ends in it. -/
theorem exists_last_endsWith {tail path : String} (htail : '/' ∉ tail.toList)
    (h : endsWith tail path = true) :
    ∃ front name, elements path = front ++ [name] ∧ '/' ∉ name.toList ∧
      endsWith tail name = true ∧ (path = name ∨ ∃ a, path = a ++ "/" ++ name) := by
  obtain ⟨front, name, helements, hname, hpath⟩ := exists_last path
  refine ⟨front, name, helements, hname, ?_, hpath⟩
  rcases hpath with rfl | ⟨a, rfl⟩
  · exact h
  · unfold endsWith at h ⊢
    rw [List.isSuffixOf_iff_suffix] at h ⊢
    have hsuffix : name.toList <:+ (a ++ "/" ++ name).toList := by
      rw [String.toList_append]
      exact List.suffix_append _ _
    rcases List.suffix_or_suffix_of_suffix h hsuffix with hle | ⟨more, hmore⟩
    · exact hle
    · -- The text would reach over the last slash.
      rcases List.eq_nil_or_concat more with rfl | ⟨more, c, rfl⟩
      · rw [List.nil_append] at hmore
        exact hmore ▸ List.suffix_rfl
      · exfalso
        obtain ⟨rest, hrest⟩ := h
        rw [List.concat_eq_append] at hmore
        rw [← hmore, String.toList_append, String.toList_append, toList_slash,
          ← List.append_assoc, ← List.append_assoc] at hrest
        have hlast : [c] = ['/'] := List.append_inj_right' (List.append_cancel_right hrest) rfl
        apply htail
        rw [← hmore, hlast]
        simp

/-! ## Shortened paths -/

/-- What has been kept of a path, the last first: names, and below them `..` elements, which only a
path without a root has. -/
def Kept (rooted : Bool) (kept : List String) : Prop :=
  ∃ k ns, kept = ns ++ List.replicate k ".." ∧ (∀ n ∈ ns, n ≠ "." ∧ n ≠ "..") ∧
    (rooted = true → k = 0)

theorem Kept.keep {rooted : Bool} {kept : List String} (h : Kept rooted kept) (element : String) :
    Kept rooted (keep rooted kept element) := by
  obtain ⟨k, ns, rfl, hns, hk⟩ := h
  unfold Path.keep
  split
  · exact ⟨k, ns, rfl, hns, hk⟩
  · rename_i hplain
    have hhere : element ≠ "." := fun heq => hplain (by simp [heq])
    split
    · split
      · rename_i hnil
        split
        · exact ⟨0, [], rfl, by simp, fun _ => rfl⟩
        · exact ⟨1, [], rfl, by simp, fun hr => absurd hr ‹_›⟩
      · -- The last that was kept is a `..` already, so there are no names.
        rename_i rest hcons
        cases ns with
        | nil =>
          refine ⟨k + 1, [], by simp [List.replicate_succ], by simp, ?_⟩
          intro hr
          rw [hk hr] at hcons
          cases hcons
        | cons n ns =>
          cases hcons
          exact absurd rfl (hns ".." List.mem_cons_self).2
      · rename_i last rest hlast hcons
        cases ns with
        | nil =>
          cases k with
          | zero => cases hcons
          | succ k =>
            cases hcons
            exact absurd rfl hlast
        | cons n ns =>
          cases hcons
          exact ⟨k, ns, rfl, (List.forall_mem_cons.1 hns).2, hk⟩
    · rename_i hup
      refine ⟨k, element :: ns, rfl, List.forall_mem_cons.2 ⟨⟨hhere, ?_⟩, hns⟩, hk⟩
      simpa using hup

theorem Kept.foldl {rooted : Bool} {kept : List String} (h : Kept rooted kept)
    (elements : List String) : Kept rooted (elements.foldl (Path.keep rooted) kept) := by
  induction elements generalizing kept with
  | nil => exact h
  | cons element elements ih => exact ih (h.keep element)

theorem cleanElements_ups (path : String) :
    ∃ k ns, cleanElements path = List.replicate k ".." ++ ns ∧ (∀ n ∈ ns, n ≠ "." ∧ n ≠ "..") ∧
      (isRooted path = true → k = 0) := by
  have hnone : Kept (isRooted path) [] := ⟨0, [], rfl, by simp, fun _ => rfl⟩
  obtain ⟨k, ns, hkept, hns, hk⟩ := hnone.foldl (elements path)
  refine ⟨k, ns.reverse, ?_, ?_, hk⟩
  · rw [cleanElements, hkept, List.reverse_append, List.reverse_replicate]
  · intro n hn
    exact hns n (List.mem_reverse.1 hn)

theorem join_clean {p q : String} (h : join p q ≠ "") : ∃ raw, join p q = clean raw := by
  unfold join at h ⊢
  split
  · split
    · rename_i hp hq
      rw [if_pos hp, if_pos hq] at h
      exact absurd rfl h
    · exact ⟨_, rfl⟩
  · split <;> exact ⟨_, rfl⟩

/-- The elements of a path that goes on with names. -/
theorem cleanElements_join_elements {tail : String} {ns : List String} (hns : ∀ n ∈ ns, IsElement n)
    (htail : elements tail = ns) (out : String) :
    ∃ raw, join out tail = clean raw ∧ isRooted raw = isRooted out ∧
      cleanElements raw = cleanElements out ++ ns := by
  have hne : tail ≠ "" := by
    rintro rfl
    exact (hns "" (htail ▸ List.mem_singleton.2 rfl)).ne_empty rfl
  have hkeep : ∀ rooted kept, ns.foldl (keep rooted) kept = ns.reverse ++ kept := by
    intro rooted
    clear htail
    induction ns with
    | nil => exact fun _ => rfl
    | cons n ns ih =>
      intro kept
      have hn := hns n List.mem_cons_self
      rw [List.foldl_cons, ih fun m hm => hns m (List.mem_cons_of_mem n hm)]
      simp [keep, hn.ne_empty, hn.ne_here, hn.ne_up]
  by_cases hout : out = ""
  · subst hout
    refine ⟨tail, by simp [join, hne], ?_, ?_⟩
    · -- A rooted path has an empty element in front.
      show isRooted tail = false
      by_contra hrooted
      rw [Bool.not_eq_false, isRooted, startsWith, List.isPrefixOf_iff_prefix] at hrooted
      obtain ⟨rest, hrest⟩ := hrooted
      have hslash : tail = "" ++ "/" ++ String.ofList rest := by
        apply String.toList_injective
        simp [← hrest]
      rw [hslash, elements_slash] at htail
      exact (hns "" (htail ▸ by simp [elements_of_slashless])).ne_empty rfl
    · rw [cleanElements, htail, hkeep]
      simp [cleanElements, elements_of_slashless, keep]
  · refine ⟨out ++ "/" ++ tail, by simp [join, hout, hne], isRooted_slash hout _, ?_⟩
    unfold cleanElements
    rw [isRooted_slash hout, elements_slash, htail, List.foldl_append, hkeep]
    simp

theorem elements_pair {sub name : String} (hsub : IsElement sub) (hname : IsElement name) :
    elements (sub ++ "/" ++ name) = [sub, name] := by
  rw [elements_slash, elements_of_slashless hsub.slashless, elements_of_slashless hname.slashless]
  rfl

/-- The elements of a path that goes on with a directory and a file in it. -/
theorem cleanElements_join {sub name : String} (hsub : IsElement sub) (hname : IsElement name)
    (out : String) :
    ∃ raw, join out (sub ++ "/" ++ name) = clean raw ∧ isRooted raw = isRooted out ∧
      cleanElements raw = cleanElements out ++ [sub, name] := by
  apply cleanElements_join_elements
  · simpa using ⟨hsub, hname⟩
  · exact elements_pair hsub hname

end Path

/-! ## Files by place -/

/-- The content of the file at a place. -/
def Tree.file? (t : Tree) (p : Place) : Option String :=
  match t.get? p with
  | some (.file content) => some content
  | _ => none

theorem Tree.file?_eq_some_iff {t : Tree} {p : Place} {content : String} :
    t.file? p = some content ↔ t.get? p = some (.file content) := by
  unfold Tree.file?
  split <;> simp_all

theorem Tree.Sound.folder_dropLast {t : Tree} {p : Place} (h : t.Sound)
    (hp : t.get? p = some .folder) : t.get? p.dropLast = some .folder := by
  rcases List.eq_nil_or_concat p with rfl | ⟨q, name, rfl⟩
  · rfl
  · rw [List.concat_eq_append] at hp ⊢
    rw [List.dropLast_concat]
    apply h.above (List.cons_ne_nil name [])
    rw [hp]
    rfl

namespace Disk

open Courtesy.Path

variable {d d' : Disk} {t : Tree} {p q : Place} {path name content : String}

/-- The place that a path can lead to. -/
def placeOf (d : Disk) (path : String) : Place := Place.walk (d.startOf path) (names path)

theorem placeOf_congr (h : d'.here = d.here) (path : String) :
    d'.placeOf path = d.placeOf path := by
  unfold placeOf startOf
  rw [h]

theorem follow_eq_walk {ns : List String} (h : follow t p ns = .ok q) : q = Place.walk p ns := by
  induction ns generalizing p with
  | nil => exact (Except.ok.inj h).symm
  | cons n ns ih =>
    rw [follow, except_bind_ok] at h
    obtain ⟨a, ha, hq⟩ := h
    have hstep : a = Place.enter p n := by
      unfold Place.enter
      obtain ⟨-, ⟨rfl, rfl⟩ | ⟨rfl, rfl⟩ | ⟨hhere, hup, -, -, rfl⟩⟩ := step_eq_ok_iff.1 ha
      · rfl
      · rfl
      · rw [if_neg hhere, if_neg hup]
    rw [ih hq, hstep]
    rfl

theorem Leads.eq_placeOf (h : d.Leads path p) : p = d.placeOf path := follow_eq_walk h

theorem follow_ups (h : t.Sound) (hp : t.get? p = some .folder) (k : Nat) :
    follow t p (List.replicate k "..") = .ok (Place.walk p (List.replicate k "..")) ∧
      t.get? (Place.walk p (List.replicate k "..")) = some .folder := by
  induction k generalizing p with
  | zero => exact ⟨rfl, hp⟩
  | succ k ih =>
    obtain ⟨hfollow, hfolder⟩ := ih (h.folder_dropLast hp)
    rw [List.replicate_succ, follow, except_bind_ok]
    exact ⟨⟨p.dropLast, step_eq_ok_iff.2 ⟨hp, .inr (.inl ⟨rfl, rfl⟩)⟩, hfollow⟩, hfolder⟩

/-- What a path reads, if it can be read. -/
def content? (d : Disk) (path : String) : Option String := (d.read path).toOption

theorem content?_eq_some : d.content? path = some content ↔ d.read path = .ok content :=
  except_toOption_eq_some

/-- A disk whose tree is a tree, with a directory to work in. -/
structure Sound (d : Disk) : Prop where
  tree : d.tree.Sound
  here : d.tree.get? d.here = some .folder

instance : Decidable d.Sound :=
  decidable_of_iff (d.tree.Sound ∧ d.tree.get? d.here = some .folder)
    ⟨fun h => ⟨h.1, h.2⟩, fun h => ⟨h.tree, h.here⟩⟩

namespace Sound

theorem startOf (h : d.Sound) (path : String) : d.tree.get? (d.startOf path) = some .folder := by
  unfold Disk.startOf
  split
  · rfl
  · exact h.here

/-- What is kept of a path leads to its place if something stands there. -/
theorem follow_cleanElements (h : d.Sound) (raw : String)
    (hsome : (d.tree.get? (Place.walk (d.startOf raw) (cleanElements raw))).isSome) :
    follow d.tree (d.startOf raw) (cleanElements raw) =
      .ok (Place.walk (d.startOf raw) (cleanElements raw)) := by
  obtain ⟨k, ns, hclean, hns, -⟩ := cleanElements_ups raw
  rw [hclean, Place.walk_append] at hsome ⊢
  rw [Place.walk_plain hns] at hsome ⊢
  rw [follow_append]
  exact ⟨_, (follow_ups h.tree (h.startOf raw) k).1, Leads.follow_below h.tree hsome⟩

theorem leads_clean (h : d.Sound) (raw : String)
    (hsome : (d.tree.get? (d.placeOf (clean raw))).isSome) :
    d.Leads (clean raw) (d.placeOf (clean raw)) := by
  have hstart : d.startOf (clean raw) = d.startOf raw := by
    unfold Disk.startOf
    rw [isRooted_clean]
  unfold Leads
  unfold placeOf at hsome ⊢
  rw [hstart] at hsome ⊢
  rcases names_clean raw with hnames | ⟨hnames, -⟩
  · rw [hnames] at hsome ⊢
    exact h.follow_cleanElements raw hsome
  · rw [hnames, follow_singleton, step_eq_ok_iff]
    exact ⟨h.startOf raw, .inl ⟨rfl, rfl⟩⟩

theorem content?_eq_some_iff (h : d.Sound) (raw : String) :
    d.content? (clean raw) = some content ↔ Usable (clean raw) ∧ namesFolder (clean raw) = false ∧
      d.tree.file? (d.placeOf (clean raw)) = some content := by
  rw [content?_eq_some, read_eq_ok_iff, Tree.file?_eq_some_iff]
  constructor
  · rintro ⟨p, hp⟩
    obtain ⟨husable, hleads, hget, hnames⟩ := lookup_eq_ok_iff.1 hp
    rw [← hleads.eq_placeOf]
    exact ⟨husable, hnames nofun, hget⟩
  · rintro ⟨husable, hnames, hget⟩
    have hleads := h.leads_clean raw (hget ▸ rfl)
    exact ⟨_, lookup_eq_ok_iff.2 ⟨husable, hleads, hget, fun _ => hnames⟩⟩

/-- A shortened path reads the same on two disks that have the same file at its place. -/
theorem content?_congr (h : d.Sound) (h' : d'.Sound) (hhere : d'.here = d.here) (raw : String)
    (hfile : d'.tree.file? (d.placeOf (clean raw)) = d.tree.file? (d.placeOf (clean raw))) :
    d'.content? (clean raw) = d.content? (clean raw) := by
  apply Option.ext
  intro content
  rw [h.content?_eq_some_iff, h'.content?_eq_some_iff, placeOf_congr hhere, hfile]

end Sound

/-- The place that names lead to from the directory that a path names. -/
theorem placeOf_join_elements {out tail : String} {ns : List String} (hns : ∀ n ∈ ns, IsElement n)
    (htail : elements tail = ns) (hne : ns ≠ []) :
    d.placeOf (join out tail) = Place.walk (d.startOf out) (cleanElements out) ++ ns := by
  obtain ⟨raw, hjoin, hrooted, hclean⟩ := cleanElements_join_elements hns htail out
  have hnames : names (clean raw) = cleanElements raw := by
    rcases names_clean raw with hnames | ⟨-, hnil⟩
    · exact hnames
    · rw [hclean] at hnil
      exact absurd (List.append_eq_nil_iff.1 hnil).2 hne
  unfold placeOf Disk.startOf
  rw [hjoin, hnames, hclean, isRooted_clean, hrooted, Place.walk_append, Place.walk_plain]
  exact fun n hn => ⟨(hns n hn).ne_here, (hns n hn).ne_up⟩

/-- The place of a file in a directory below the directory that a path names. -/
theorem placeOf_join {out sub : String} (hsub : IsElement sub) (hname : IsElement name) :
    d.placeOf (join out (sub ++ "/" ++ name)) =
      Place.walk (d.startOf out) (cleanElements out) ++ [sub, name] := by
  apply placeOf_join_elements
  · simpa using ⟨hsub, hname⟩
  · exact elements_pair hsub hname
  · simp

end Disk

end Courtesy
