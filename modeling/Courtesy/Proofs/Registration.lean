import Courtesy.Proofs.Changes

/-!
# What a watcher knows

A watcher knows a place by the path of the event that something appeared there (`Watcher.pathOf?`).
This path leads to the place as long as the directory it stands in is registered under a path that
leads there (`Registration.Valid`). Taking a directory into account registers the directories in it,
output directories excepted, and records the sources in them and nothing else (`Watcher.Takes`,
`Watcher.addTree_takes`, `Watcher.registered_addTree`).
-/

namespace Courtesy

/-! ## The tracker -/

namespace Tracker

variable {t : Tracker} {d : Disk} {path content : String}

theorem lookup_filter_ne {seen : List (String × String)} {y : String} (h : y ≠ path) :
    (seen.filter (·.1 != path)).lookup y = seen.lookup y := by
  induction seen with
  | nil => rfl
  | cons entry seen ih =>
    obtain ⟨z, hex⟩ := entry
    by_cases hz : z = path
    · subst hz
      have hy : (y == z) = false := beq_eq_false_iff_ne.2 h
      rw [List.filter_cons_of_neg (by simp), List.lookup_cons, hy, ih]
    · rw [List.filter_cons_of_pos (by simpa using hz), List.lookup_cons, List.lookup_cons, ih]

theorem recorded?_record (t : Tracker) (path hex y : String) :
    (t.record path hex).recorded? y = if y = path then some hex else t.recorded? y := by
  unfold record recorded?
  rw [List.lookup_cons]
  by_cases hy : y = path
  · rw [if_pos hy, beq_iff_eq.2 hy]
  · rw [if_neg hy, beq_eq_false_iff_ne.2 hy, lookup_filter_ne hy]

/-- A path that can be read has its content recorded, and counts as changed if another fingerprint
or none was recorded for it. -/
theorem check_read (h : d.read path = .ok content) :
    (∀ y, (t.check d path).1.recorded? y =
        if y = path then some (fingerprint content) else t.recorded? y) ∧
      ((t.check d path).2 = true ↔ t.recorded? path ≠ some (fingerprint content)) := by
  unfold check
  rw [h]
  dsimp only
  split
  · rename_i hsame
    refine ⟨?_, by simp [hsame]⟩
    intro y
    split
    · rename_i hy
      rw [hy, hsame]
    · rfl
  · rename_i hother
    refine ⟨?_, by simp [hother]⟩
    intro y
    exact recorded?_record t path _ y

theorem check_unread (h : ∀ content, d.read path ≠ .ok content) : (t.check d path).1 = t := by
  unfold check
  split
  · rfl
  · rename_i content hread
    exact absurd hread (h content)

end Tracker

/-! ## Registrations -/

/-- A registered directory is there, and its path leads to it. -/
structure Registration.Valid (d : Disk) (r : Registration) : Prop where
  folder : d.tree.get? r.place = some .folder
  leads : d.Leads r.label r.place
  ne_empty : r.label ≠ ""
  noNul : '\x00' ∉ r.label.toList

namespace Watcher

variable {w w' : Watcher} {d : Disk} {p q : Place} {path y : String}

/-- A directory is registered. -/
def Registered (w : Watcher) (p : Place) : Prop := ∃ r ∈ w.registered, r.place = p

theorem Registered.mono (h : w.registered <+: w'.registered) (hp : w.Registered p) :
    w'.Registered p := by
  obtain ⟨r, hr, hplace⟩ := hp
  exact ⟨r, h.subset hr, hplace⟩

theorem pathOf?_eq_some_iff :
    w.pathOf? p = some y ↔ ∃ r name, w.registered.find? (·.place = p.dropLast) = some r ∧
      p.getLast? = some name ∧ y = r.label ++ "/" ++ name := by
  unfold pathOf?
  cases hname : p.getLast? with
  | none => simp
  | some name =>
    cases hr : w.registered.find? (·.place = p.dropLast) with
    | none => simp
    | some r => simp [eq_comm]

theorem isSome_pathOf?_iff (hp : p ≠ []) : (w.pathOf? p).isSome ↔ w.Registered p.dropLast := by
  have hname : p.getLast? = some (p.getLast hp) := List.getLast?_eq_some_getLast hp
  rw [Option.isSome_iff_exists]
  constructor
  · rintro ⟨y, hy⟩
    obtain ⟨r, name, hr, -, -⟩ := pathOf?_eq_some_iff.1 hy
    exact ⟨r, List.mem_of_find?_eq_some hr, by simpa using List.find?_some hr⟩
  · rintro ⟨r, hr, hplace⟩
    have hfound : (w.registered.find? (·.place = p.dropLast)).isSome :=
      List.find?_isSome.2 ⟨r, hr, decide_eq_true hplace⟩
    obtain ⟨r', hr'⟩ := Option.isSome_iff_exists.1 hfound
    exact ⟨_, pathOf?_eq_some_iff.2 ⟨r', _, hr', hname, rfl⟩⟩

/-- The path by which a place is known does not change when more is registered. -/
theorem pathOf?_mono (h : w.registered <+: w'.registered) (hp : w.pathOf? p = some y) :
    w'.pathOf? p = some y := by
  obtain ⟨r, name, hr, hname, hy⟩ := pathOf?_eq_some_iff.1 hp
  obtain ⟨more, hmore⟩ := h
  refine pathOf?_eq_some_iff.2 ⟨r, name, ?_, hname, hy⟩
  rw [← hmore, List.find?_append, hr]
  rfl

section known

variable (hv : ∀ r ∈ w.registered, r.Valid d) (hp : w.pathOf? p = some y)
include hv hp

/-- The path by which a place is known leads to it once there is something. -/
theorem leads_pathOf? (hs : d.tree.Sound) (hsome : (d.tree.get? p).isSome) : d.Leads y p := by
  obtain ⟨r, name, hr, hname, rfl⟩ := pathOf?_eq_some_iff.1 hp
  have hvalid := hv r (List.mem_of_find?_eq_some hr)
  have hplace : r.place = p.dropLast := by simpa using List.find?_some hr
  have hsplit : p = r.place ++ [name] := by
    obtain ⟨q, rfl⟩ := List.getLast?_eq_some_iff.1 hname
    rw [hplace, List.dropLast_concat]
  have hisName : Disk.IsName name := hs.isName hsome name (by rw [hsplit]; simp)
  rw [hvalid.leads.slash_iff hvalid.ne_empty hisName]
  exact ⟨hvalid.folder, hsplit ▸ hsome, hsplit⟩

/-- The path by which a place is known leads nowhere else. -/
theorem eq_of_leads_pathOf? (hname : ∀ name ∈ p.getLast?, Disk.IsName name) (hq : d.Leads y q) :
    q = p := by
  obtain ⟨r, name, hr, hlast, rfl⟩ := pathOf?_eq_some_iff.1 hp
  have hvalid := hv r (List.mem_of_find?_eq_some hr)
  have hplace : r.place = p.dropLast := by simpa using List.find?_some hr
  rw [hvalid.leads.slash_iff hvalid.ne_empty (hname name hlast)] at hq
  obtain ⟨p', rfl⟩ := List.getLast?_eq_some_iff.1 hlast
  rw [hq.2.2, hplace, List.dropLast_concat]

theorem noNul_pathOf? (hname : ∀ name ∈ p.getLast?, Disk.IsName name) : '\x00' ∉ y.toList := by
  obtain ⟨r, name, hr, hlast, rfl⟩ := pathOf?_eq_some_iff.1 hp
  have hvalid := hv r (List.mem_of_find?_eq_some hr)
  simp only [String.toList_append, List.mem_append, Path.toList_slash, List.mem_singleton]
  rintro ((h | h) | h)
  · exact hvalid.noNul h
  · cases h
  · exact (hname name hlast).noNul h

/-- What stands at a place is found by the path by which the place is known. -/
theorem lookup_pathOf? (hs : d.tree.Sound) {e : Entry} (he : d.tree.get? p = some e)
    (hshort : y.utf8ByteSize ≤ Disk.maxPath) : d.lookup y = .ok (p, e) := by
  have hsome : (d.tree.get? p).isSome := he ▸ rfl
  have hnames : ∀ name ∈ p.getLast?, Disk.IsName name :=
    fun name hname => hs.isName hsome name (List.mem_of_getLast? hname)
  have hnul := noNul_pathOf? hv hp hnames
  have hleads := leads_pathOf? hv hp hs hsome
  obtain ⟨r, name, -, hlast, rfl⟩ := pathOf?_eq_some_iff.1 hp
  refine Disk.lookup_eq_ok_iff.2 ⟨⟨by simp, hnul, hshort⟩, hleads, he, fun _ => ?_⟩
  exact Disk.namesFolder_slash (hnames name hlast) r.label

end known

theorem base_pathOf? (hp : w.pathOf? p = some y) (hname : ∀ name ∈ p.getLast?, Disk.IsName name) :
    p.getLast? = some (Path.base y) := by
  obtain ⟨r, name, -, hlast, rfl⟩ := pathOf?_eq_some_iff.1 hp
  rw [Path.base_slash (hname name hlast).ne_empty (hname name hlast).slashless, hlast]

theorem isPath_pathOf? {name : String} (hp : w.pathOf? p = some y) (hname : p.getLast? = some name)
    (hsource : Source.isPath name = true) : Source.isPath y = true := by
  obtain ⟨r, name', -, hlast, rfl⟩ := pathOf?_eq_some_iff.1 hp
  cases hlast.symm.trans hname
  unfold Source.isPath Text.endsWith at *
  rw [List.isSuffixOf_iff_suffix, String.toList_append] at *
  exact hsource.trans (List.suffix_append _ _)

/-! ## Taking a directory into account -/

theorem register_cases (w : Watcher) (p : Place) (label : String) :
    w.Registered p ∧ w.register p label = w ∨
      ¬ w.Registered p ∧
        w.register p label = { w with registered := w.registered ++ [⟨p, label⟩] } := by
  unfold register
  split
  · rename_i h
    exact .inl ⟨by simpa [Registered] using h, rfl⟩
  · rename_i h
    exact .inr ⟨by simpa [Registered] using h, rfl⟩

theorem registered_register (w : Watcher) (p : Place) (label : String) :
    (w.register p label).Registered p := by
  rcases register_cases w p label with ⟨h, heq⟩ | ⟨-, heq⟩
  · rwa [heq]
  · rw [heq]
    exact ⟨_, List.mem_append_right _ List.mem_cons_self, rfl⟩

/-- The watcher `w'` has taken into account what stands below the directory `p`. Everything new is
read off the disk as it is. -/
structure Takes (d : Disk) (p : Place) (w w' : Watcher) : Prop where
  registered : w.registered <+: w'.registered
  valid : ∀ r ∈ w'.registered, r ∈ w.registered ∨
    r.Valid d ∧ ∃ rel, r.place = p ++ rel ∧ Source.outputName ∉ rel
  recorded : ∀ y, w'.tracker.recorded? y = w.tracker.recorded? y ∨
    Source.isPath y = true ∧ ∃ rel content, d.lookup y = .ok (p ++ rel, .file content) ∧ rel ≠ [] ∧
      Source.outputName ∉ rel.dropLast ∧ w'.tracker.recorded? y = some (fingerprint content)

theorem Takes.refl (d : Disk) (p : Place) (w : Watcher) : Takes d p w w :=
  ⟨List.prefix_rfl, fun _ hr => .inl hr, fun _ => .inl rfl⟩

theorem Takes.trans {w₁ w₂ w₃ : Watcher} (h₁ : Takes d p w₁ w₂) (h₂ : Takes d p w₂ w₃) :
    Takes d p w₁ w₃ := by
  refine ⟨h₁.registered.trans h₂.registered, ?_, ?_⟩
  · intro r hr
    rcases h₂.valid r hr with hr | hr
    · exact h₁.valid r hr
    · exact .inr hr
  · intro y
    rcases h₂.recorded y with hy | hy
    · rcases h₁.recorded y with hy' | ⟨hpath, rel, content, hlookup, hrel, hcover, hy'⟩
      · exact .inl (hy.trans hy')
      · exact .inr ⟨hpath, rel, content, hlookup, hrel, hcover, hy.trans hy'⟩
    · exact .inr hy

theorem Takes.register {rel : Place} {label : String} (w : Watcher)
    (hvalid : Registration.Valid d ⟨p ++ rel, label⟩) (hrel : Source.outputName ∉ rel) :
    Takes d p w (w.register (p ++ rel) label) := by
  rcases register_cases w (p ++ rel) label with ⟨-, heq⟩ | ⟨-, heq⟩
  · rw [heq]
    exact .refl d p w
  · rw [heq]
    refine ⟨List.prefix_append _ _, ?_, fun _ => .inl rfl⟩
    intro r hr
    rcases List.mem_append.1 hr with hr | hr
    · exact .inl hr
    · rw [List.mem_singleton] at hr
      subst hr
      exact .inr ⟨hvalid, rel, rfl, hrel⟩

/-- A path that a watched directory is given together with names below it. -/
theorem join_leads {dir : String} (hs : d.tree.Sound) (hhere : d.tree.get? d.here = some .folder)
    (hdir : Disk.Usable dir) (hleads : d.Leads dir p) {rel : Place} (hrel : rel ≠ [])
    (hsome : (d.tree.get? (p ++ rel)).isSome) :
    d.Leads (Path.join dir ("/".intercalate rel)) (p ++ rel) ∧
      Path.join dir ("/".intercalate rel) ≠ "" ∧
      '\x00' ∉ (Path.join dir ("/".intercalate rel)).toList := by
  have hnames : ∀ name ∈ rel, Disk.IsName name :=
    fun name hname => hs.isName hsome name (List.mem_append_right p hname)
  have hjoin : Path.join dir ("/".intercalate rel) =
      Path.clean (dir ++ "/" ++ "/".intercalate rel) := by
    have hne := Path.intercalate_ne_empty hrel fun name hname => (hnames name hname).ne_empty
    unfold Path.join
    rw [if_neg (by simpa using hdir.ne_empty), if_neg (by simpa using hne)]
  rw [hjoin]
  refine ⟨(hleads.below hs hdir.ne_empty hsome).clean hhere, Path.clean_ne_empty _, ?_⟩
  intro hnul
  rcases Path.mem_of_mem_clean hnul with hnul | hnul | hnul
  · simp only [String.toList_append, List.mem_append, Path.toList_slash, List.mem_singleton] at hnul
    rcases hnul with (hnul | hnul) | hnul
    · exact hdir.noNul hnul
    · cases hnul
    · rcases Path.mem_intercalate hnul with hnul | ⟨name, hname, hnul⟩
      · cases hnul
      · exact (hnames name hname).noNul hnul
  · cases hnul
  · cases hnul

theorem Takes.record {rel : Place} (w : Watcher) (hpath : Source.isPath path = true)
    (hleads : d.Leads path (p ++ rel)) (hrel : rel ≠ [])
    (hcover : Source.outputName ∉ rel.dropLast) :
    Takes d p w (w.record d path) := by
  refine ⟨List.prefix_rfl, fun _ hr => .inl hr, ?_⟩
  intro y
  by_cases hread : ∃ content, d.read path = .ok content
  · obtain ⟨content, hread⟩ := hread
    have hrecorded := (Tracker.check_read (t := w.tracker) hread).1 y
    obtain ⟨q, hlookup⟩ := Disk.read_eq_ok_iff.1 hread
    have hq : q = p ++ rel := (Disk.lookup_eq_ok_iff.1 hlookup).2.1.unique hleads
    by_cases hy : y = path
    · rw [if_pos hy] at hrecorded
      subst hy hq
      exact .inr ⟨hpath, rel, content, hlookup, hrel, hcover, hrecorded⟩
    · rw [if_neg hy] at hrecorded
      exact .inl hrecorded
  · have hsame : w.record d path = w := by
      unfold Watcher.record
      rw [Tracker.check_unread fun content h => hread ⟨content, h⟩]
    exact .inl (by rw [hsame])

section addTree

variable {dir : String} (hs : d.tree.Sound) (hhere : d.tree.get? d.here = some .folder)
  (hdir : d.lookup dir = .ok (p, .folder))
include hs hhere hdir

theorem addEntry_takes {entry : Place × Entry} (hentry : entry ∈ d.tree.below p)
    (hcover : covers entry.1 entry.2 = true) (w : Watcher) :
    Takes d p w (addEntry d p dir w entry) := by
  obtain ⟨husable, hleads, -, -⟩ := Disk.lookup_eq_ok_iff.1 hdir
  obtain ⟨rel, e⟩ := entry
  obtain ⟨hrel, hmem⟩ := Tree.mem_below.1 hentry
  obtain ⟨hjoin, hne, hnul⟩ :=
    join_leads hs hhere husable hleads hrel (Tree.isSome_get?_of_mem hmem)
  unfold addEntry
  cases e with
  | folder =>
    have hout : Source.outputName ∉ rel := by simpa [covers] using hcover
    exact .register w ⟨hs.folder _ hmem, hjoin, hne, hnul⟩ hout
  | file content =>
    have hout : Source.outputName ∉ rel.dropLast := by simpa [covers] using hcover
    dsimp only
    split
    · rename_i hpath
      exact .record w hpath hjoin hrel hout
    · exact .refl d p w

theorem foldl_addEntry_takes {entries : List (Place × Entry)}
    (hentries : ∀ entry ∈ entries, entry ∈ d.tree.below p ∧ covers entry.1 entry.2 = true)
    (w : Watcher) : Takes d p w (entries.foldl (addEntry d p dir) w) := by
  induction entries generalizing w with
  | nil => exact .refl d p w
  | cons entry entries ih =>
    obtain ⟨⟨hentry, hcover⟩, hrest⟩ := List.forall_mem_cons.1 hentries
    exact (addEntry_takes hs hhere hdir hentry hcover w).trans (ih hrest _)

theorem registered_foldl_addEntry {entries : List (Place × Entry)}
    (hentries : ∀ entry ∈ entries, entry ∈ d.tree.below p ∧ covers entry.1 entry.2 = true)
    (w : Watcher) {rel : Place} (hrel : (rel, .folder) ∈ entries) :
    (entries.foldl (addEntry d p dir) w).Registered (p ++ rel) := by
  induction entries generalizing w with
  | nil => cases hrel
  | cons entry entries ih =>
    obtain ⟨-, hrest⟩ := List.forall_mem_cons.1 hentries
    rcases List.mem_cons.1 hrel with rfl | hrel
    · exact (registered_register w (p ++ rel) _).mono
        (foldl_addEntry_takes hs hhere hdir hrest _).registered
    · exact ih hrest _ hrel

omit hs hhere hdir in
theorem mem_covered {entry : Place × Entry} :
    entry ∈ (d.tree.below p).filter (fun (q, e) => covers q e) ↔
      entry ∈ d.tree.below p ∧ covers entry.1 entry.2 = true := List.mem_filter

omit hs hhere in
theorem addTree_folder (w : Watcher) :
    w.addTree d dir = ((d.tree.below p).filter fun (q, e) => covers q e).foldl (addEntry d p dir)
      (w.register p (Path.clean dir)) := by
  unfold addTree
  rw [hdir]

omit hs in
theorem register_root_takes (w : Watcher) : Takes d p w (w.register p (Path.clean dir)) := by
  obtain ⟨husable, hleads, hfolder, -⟩ := Disk.lookup_eq_ok_iff.1 hdir
  have hnul : '\x00' ∉ (Path.clean dir).toList := by
    intro hnul
    rcases Path.mem_of_mem_clean hnul with hnul | hnul | hnul
    · exact husable.noNul hnul
    · cases hnul
    · cases hnul
  have hvalid : Registration.Valid d ⟨p ++ [], Path.clean dir⟩ := by
    rw [List.append_nil]
    exact ⟨hfolder, hleads.clean hhere, Path.clean_ne_empty dir, hnul⟩
  have htakes := Takes.register w hvalid List.not_mem_nil
  rwa [List.append_nil] at htakes

theorem addTree_takes (w : Watcher) : Takes d p w (w.addTree d dir) := by
  rw [addTree_folder hdir]
  exact (register_root_takes hhere hdir w).trans
    (foldl_addEntry_takes hs hhere hdir (fun _ => mem_covered.1) _)

/-- All directories below a directory that is taken into account are registered, except for output
directories and what is in them. -/
theorem registered_addTree (w : Watcher) {rel : Place} (hrel : Source.outputName ∉ rel)
    (hfolder : d.tree.get? (p ++ rel) = some .folder) :
    (w.addTree d dir).Registered (p ++ rel) := by
  rw [addTree_folder hdir]
  rcases Decidable.em (rel = []) with rfl | hne
  · rw [List.append_nil]
    exact (registered_register w p _).mono
      (foldl_addEntry_takes hs hhere hdir (fun _ => mem_covered.1) _).registered
  · apply registered_foldl_addEntry hs hhere hdir (fun _ => mem_covered.1)
    refine mem_covered.2 ⟨Tree.mem_below.2 ⟨hne, Tree.mem_of_get? (by simp [hne]) hfolder⟩, ?_⟩
    simpa [covers] using hrel

end addTree

end Watcher

end Courtesy
