import Courtesy.Files.Work
import Courtesy.Proofs.Places

/-!
# What work leaves on a disk

Work that reaches its end has gone through its parts one after the other, each on the disk that the
one before it left (`Work.perform_bind`). Making directories keeps a disk sound and changes no file
(`Disk.Furnished`), and writing a file changes the file at the place of its path and no other one
(`Disk.Written`). To save a file is to do both (`Work.save_written`).
-/

namespace Courtesy

/-! ## Files in a tree that an entry is put into -/

namespace Tree

variable {t : Tree} {p q : Place}

theorem file?_put_file (hp : p ≠ []) (content : String) :
    (t.put p (.file content)).file? q = if q = p then some content else t.file? q := by
  unfold file?
  rw [get?_put t hp]
  by_cases hq : q = p
  · rw [if_pos hq, if_pos hq]
  · rw [if_neg hq, if_neg hq]

theorem file?_put_folder (hp : p ≠ []) (hnone : t.get? p = none) :
    (t.put p .folder).file? q = t.file? q := by
  unfold file?
  rw [get?_put t hp]
  by_cases hq : q = p
  · rw [if_pos hq, hq, hnone]
  · rw [if_neg hq]

end Tree

/-! ## Directories and files -/

namespace Disk

open Courtesy.Path

variable {d d' d'' : Disk} {p : Place} {path name content : String}

/-- Directories have been made and nothing else. -/
structure Furnished (d d' : Disk) : Prop where
  sound : d'.Sound
  here : d'.here = d.here
  file? : ∀ q, d'.tree.file? q = d.tree.file? q

theorem Furnished.refl (h : d.Sound) : d.Furnished d := ⟨h, rfl, fun _ => rfl⟩

theorem Furnished.trans (h : d.Furnished d') (h' : d'.Furnished d'') : d.Furnished d'' :=
  ⟨h'.sound, h'.here.trans h.here, fun q => (h'.file? q).trans (h.file? q)⟩

/-- The file at a place has been created or overwritten, and directories may have been made. -/
structure Written (d d' : Disk) (p : Place) (content : String) : Prop where
  sound : d'.Sound
  here : d'.here = d.here
  file? : ∀ q, d'.tree.file? q = if q = p then some content else d.tree.file? q

namespace Written

theorem content?_self (hw : d.Written d' (d.placeOf path) content)
    (hclean : ∃ raw, path = clean raw) (husable : Usable path)
    (hnames : namesFolder path = false) : d'.content? path = some content := by
  obtain ⟨raw, rfl⟩ := hclean
  rw [hw.sound.content?_eq_some_iff]
  refine ⟨husable, hnames, ?_⟩
  rw [placeOf_congr hw.here, hw.file?, if_pos rfl]

theorem content?_other (h : d.Sound) (hw : d.Written d' p content)
    (hclean : ∃ raw, path = clean raw) (hne : d.placeOf path ≠ p) :
    d'.content? path = d.content? path := by
  obtain ⟨raw, rfl⟩ := hclean
  apply h.content?_congr hw.sound hw.here
  rw [hw.file?, if_neg hne]

end Written

theorem isName_of_mem_names (husable : Usable path) (hmem : name ∈ names path)
    (hhere : name ≠ ".") (hup : name ≠ "..") (hshort : name.utf8ByteSize ≤ maxName) :
    IsName name := by
  unfold names at hmem
  obtain ⟨hmem, hne⟩ := List.mem_filter.1 hmem
  refine ⟨bne_iff_ne.1 hne, hhere, hup, slashless_of_mem_elements hmem, ?_, hshort⟩
  intro hnul
  exact husable.noNul (mem_of_mem_elements hmem hnul)

/-- The directory for an entry is there, and the entry is to stand at the place of the path. -/
theorem lookupParent_ok (h : d.lookupParent path = .ok (p, some name)) :
    Usable path ∧ IsName name ∧ d.tree.get? p = some .folder ∧ d.placeOf path = p ++ [name] := by
  unfold lookupParent at h
  obtain ⟨start, hstart, h⟩ := except_bind_ok.1 h
  obtain ⟨husable, rfl⟩ := origin_eq_ok_iff.1 hstart
  split at h
  · cases h
  · rename_i last hlast
    obtain ⟨q, hq, h⟩ := except_bind_ok.1 h
    split at h
    · rename_i hfolder
      split at h
      · cases h
      · rename_i hdots
        split at h
        · cases h
        · rename_i hshort
          cases h
          simp only [Bool.or_eq_true, beq_iff_eq, not_or] at hdots
          obtain ⟨front, hnames⟩ := List.getLast?_eq_some_iff.1 hlast
          refine ⟨husable, ?_, hfolder, ?_⟩
          · apply isName_of_mem_names husable _ hdots.1 hdots.2 (Nat.not_lt.1 hshort)
            rw [hnames]
            simp
          · rw [hnames, List.dropLast_concat] at hq
            rw [placeOf, hnames, Place.walk_append, ← follow_eq_walk hq, Place.walk_plain]
            simpa using hdots
    · cases h

section put

variable (h : d.Sound) {e : Entry}
include h

/-- An entry is put at the place of a path for which there is room. -/
theorem Sound.put (hroom : IsName name) (hfolder : d.tree.get? p = some .folder)
    (hfree : d.tree.get? (p ++ [name]) ≠ some .folder) :
    Disk.Sound { d with tree := d.tree.put (p ++ [name]) e } := by
  have hne : p ++ [name] ≠ [] := by simp
  refine ⟨?_, ?_⟩
  · apply h.tree.put hne _ _ hfree
    · intro n hn
      rcases List.mem_append.1 hn with hn | hn
      · exact h.tree.isName (hfolder ▸ rfl) n hn
      · rwa [List.mem_singleton.1 hn]
    · rwa [List.dropLast_concat]
  · show (d.tree.put (p ++ [name]) e).get? d.here = some .folder
    rw [Tree.get?_put _ hne, if_neg, h.here]
    intro heq
    rw [← heq] at hfree
    exact hfree h.here

theorem makeFolder_furnished (hmake : d.makeFolder path = .ok d') : d.Furnished d' := by
  unfold makeFolder at hmake
  split at hmake
  · cases hmake
  · cases hmake
  · rename_i p name hparent
    obtain ⟨-, hname, hfolder, -⟩ := lookupParent_ok hparent
    split at hmake
    · cases hmake
    · rename_i hfree
      cases hmake
      rw [Option.not_isSome_iff_eq_none] at hfree
      refine ⟨h.put hname hfolder (by rw [hfree]; nofun), rfl, ?_⟩
      intro q
      exact Tree.file?_put_folder (by simp) hfree

theorem write_written (hwrite : d.write path content = .ok d') :
    Usable path ∧ namesFolder path = false ∧ d.Written d' (d.placeOf path) content := by
  unfold Disk.write at hwrite
  split at hwrite
  · cases hwrite
  · cases hwrite
  · rename_i p name hparent
    obtain ⟨husable, hname, hfolder, hplace⟩ := lookupParent_ok hparent
    split at hwrite
    · cases hwrite
    · rename_i hcond
      cases hwrite
      simp only [Bool.or_eq_true, decide_eq_true_eq, not_or] at hcond
      refine ⟨husable, Bool.eq_false_iff.2 hcond.1, h.put hname hfolder hcond.2, rfl, ?_⟩
      intro q
      rw [hplace]
      exact Tree.file?_put_file (by simp) content

end put

theorem makeLast_furnished {made : Disk × Option FileFault} (h : d.Furnished made.1) :
    d.Furnished (makeLast path made).1 := by
  obtain ⟨d₁, fault⟩ := made
  cases fault with
  | some fault => exact h
  | none =>
    rw [makeLast]
    cases hmake : d₁.makeFolder path with
    | ok d₂ => exact h.trans (makeFolder_furnished h.sound hmake)
    | error fault =>
      dsimp only
      split <;> exact h

theorem makeFoldersWithin_furnished (fuel : Nat) (h : d.Sound) (path : String) :
    d.Furnished (makeFoldersWithin fuel d path).1 := by
  induction fuel generalizing d path with
  | zero => exact .refl h
  | succ fuel ih =>
    rw [makeFoldersWithin]
    split
    · exact .refl h
    · exact .refl h
    · apply makeLast_furnished
      split
      · exact .refl h
      · exact ih h (parentPath path)

theorem makeFolders_furnished (h : d.Sound) (path : String) : d.Furnished (d.makeFolders path).1 :=
  makeFoldersWithin_furnished _ h path

end Disk

/-! ## Work -/

namespace Work

variable {ε α β : Type} {d d' : Disk}

theorem perform_bind (x : Work ε α) (f : α → Work ε β) (d : Disk) :
    (x >>= f).perform d = match x.perform d with
      | (.ok a, d₁) => (f a).perform d₁
      | (.error fault, d₁) => (.error fault, d₁) := by
  unfold perform
  rw [ExceptT.run_bind, StateT.run_bind]
  generalize StateT.run (ExceptT.run x) d = result
  obtain ⟨r, d₁⟩ := result
  cases r <;> rfl

theorem perform_bind_ok {x : Work ε α} {f : α → Work ε β} {b : β} :
    (x >>= f).perform d = (.ok b, d') ↔
      ∃ a d₁, x.perform d = (.ok a, d₁) ∧ (f a).perform d₁ = (.ok b, d') := by
  rw [perform_bind]
  generalize x.perform d = result
  obtain ⟨r, d₁⟩ := result
  cases r with
  | ok a => simp
  | error fault => simp

theorem perform_bind_error {x : Work ε α} {f : α → Work ε β} {fault : ε} :
    (x >>= f).perform d = (.error fault, d') ↔ x.perform d = (.error fault, d') ∨
      ∃ a d₁, x.perform d = (.ok a, d₁) ∧ (f a).perform d₁ = (.error fault, d') := by
  rw [perform_bind]
  generalize x.perform d = result
  obtain ⟨r, d₁⟩ := result
  cases r with
  | ok a => simp
  | error fault => simp

theorem perform_eq_of_fst {x : Work ε α} {r : Except ε α} (h : (x.perform d).1 = r) :
    x.perform d = (r, (x.perform d).2) := Prod.ext h rfl

theorem perform_read (path : String) (fault : FileFault → ε) (d : Disk) :
    (read path fault).perform d = match d.read path with
      | .ok content => (.ok content, d)
      | .error cause => (.error (fault cause), d) := by
  show (match d.read path with
    | .ok content => (pure content : Work ε String)
    | .error cause => throw (fault cause)).perform d = _
  cases d.read path <;> rfl

theorem perform_write (path content : String) (fault : FileFault → ε) (d : Disk) :
    (write path content fault).perform d = match d.write path content with
      | .ok d' => (.ok (), d')
      | .error cause => (.error (fault cause), d) := by
  show (match d.write path content with
    | .ok d' => (set d' : Work ε Unit)
    | .error cause => throw (fault cause)).perform d = _
  cases d.write path content <;> rfl

theorem perform_makeFolders (path : String) (fault : FileFault → ε) (d : Disk) :
    (makeFolders path fault).perform d = match (d.makeFolders path).2 with
      | none => (.ok (), (d.makeFolders path).1)
      | some cause => (.error (fault cause), (d.makeFolders path).1) := by
  unfold makeFolders
  rw [perform_bind]
  show Work.perform _ d = _
  dsimp only
  generalize d.makeFolders path = made
  obtain ⟨d₁, failed⟩ := made
  cases failed <;> rfl

theorem fault_of_read {path : String} {fault : FileFault → ε} {e : ε}
    (h : (read path fault).perform d = (.error e, d')) : ∃ cause, e = fault cause := by
  rw [perform_read] at h
  cases hread : d.read path with
  | error cause =>
    rw [hread] at h
    cases h
    exact ⟨cause, rfl⟩
  | ok content =>
    rw [hread] at h
    cases h

theorem fault_of_save {path content : String} {fault : SaveFault → ε} {e : ε}
    (h : (save path content fault).perform d = (.error e, d')) : ∃ cause, e = fault cause := by
  unfold save saveIn at h
  rcases perform_bind_error.1 h with hmake | ⟨made, d₁, -, hwrite⟩
  · rw [perform_makeFolders] at hmake
    generalize d.makeFolders (Path.dir path) = folders at hmake
    obtain ⟨d₂, failed⟩ := folders
    cases failed with
    | none => cases hmake
    | some cause =>
      cases hmake
      exact ⟨.folder (Path.dir path) cause, rfl⟩
  · rw [perform_write] at hwrite
    cases hwritten : d₁.write path content with
    | error cause =>
      rw [hwritten] at hwrite
      cases hwrite
      exact ⟨.file path cause, rfl⟩
    | ok d₂ =>
      rw [hwritten] at hwrite
      cases hwrite

theorem makeFolders_furnished {path : String} {fault : FileFault → ε} (h : d.Sound)
    (hmake : (makeFolders path fault).perform d = (.ok (), d')) : d.Furnished d' := by
  have hmade := Disk.makeFolders_furnished h path
  rw [perform_makeFolders] at hmake
  generalize d.makeFolders path = folders at hmake hmade
  obtain ⟨d₂, failed⟩ := folders
  cases failed with
  | none =>
    cases hmake
    exact hmade
  | some cause => cases hmake

theorem write_ok {path content : String} {fault : FileFault → ε}
    (hwrite : (write path content fault).perform d = (.ok (), d')) :
    d.write path content = .ok d' := by
  rw [perform_write] at hwrite
  cases hwritten : d.write path content with
  | error cause =>
    rw [hwritten] at hwrite
    cases hwrite
  | ok d₁ =>
    rw [hwritten] at hwrite
    cases hwrite
    rfl

/-- A file that is written once its directories are made is at the place of its path, and no other
file has changed. -/
theorem makeFolders_write_written {dir path content : String} {fault fault' : FileFault → ε}
    {d₁ : Disk} (h : d.Sound) (hmake : (makeFolders dir fault).perform d = (.ok (), d₁))
    (hwrite : (write path content fault').perform d₁ = (.ok (), d')) :
    Disk.Usable path ∧ Disk.namesFolder path = false ∧ d.Written d' (d.placeOf path) content := by
  have hfurnished := makeFolders_furnished h hmake
  obtain ⟨husable, hnames, hw⟩ := Disk.write_written hfurnished.sound (write_ok hwrite)
  rw [Disk.placeOf_congr hfurnished.here] at hw
  refine ⟨husable, hnames, hw.sound, hw.here.trans hfurnished.here, ?_⟩
  intro q
  rw [hw.file?, hfurnished.file?]

/-- A file that has been saved is at the place of its path, and no other file has changed. -/
theorem save_written {path content : String} {fault : SaveFault → ε} (h : d.Sound)
    (hsave : (save path content fault).perform d = (.ok (), d')) :
    Disk.Usable path ∧ Disk.namesFolder path = false ∧ d.Written d' (d.placeOf path) content := by
  unfold save saveIn at hsave
  obtain ⟨_, d₁, hmake, hwrite⟩ := perform_bind_ok.1 hsave
  exact makeFolders_write_written h hmake hwrite

end Work

end Courtesy
