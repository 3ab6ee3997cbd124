import Courtesy.Proofs.Registration

/-!
# The sources that a build finds and a watcher records

A build and a watcher walk through a source directory each in its own way. Both take the files with
the extension of a source and pass over the output directories below (`Source.Reached`). They differ
in the directory that they start from: the watcher takes it whatever its name is
(`Watcher.isSome_recorded?_addTree`), the build does not if it has the name of an output directory
(`Source.find_reached`). Main statement: they agree on what a source is unless a source directory
has this name and sources in it.
-/

namespace Courtesy

namespace Source

variable {d : Disk} {t : Tree} {p : Place} {e : Entry} {dir y : String}

/-- A file below a directory that has the path of a source and is in no output directory. -/
def Below (t : Tree) (p : Place) (dir y : String) : Prop :=
  ∃ rel content, (rel, .file content) ∈ t.below p ∧ outputName ∉ rel.dropLast ∧
    y = Path.join dir ("/".intercalate rel) ∧ isPath y = true

/-- A source that a path leads to: the path itself, or a source below the directory that
it names. -/
def Reached (t : Tree) (p : Place) (dir : String) : Entry → String → Prop
  | .file _, y => y = dir ∧ isPath y = true
  | .folder, y => Below t p dir y

theorem mem_below_iff : y ∈ below t p dir ↔ Below t p dir y := by
  unfold below Below
  rw [List.mem_filterMap]
  constructor
  · rintro ⟨⟨rel, e⟩, hmem, hentry⟩
    dsimp only at hentry
    split at hentry
    · rename_i hcond
      cases hentry
      cases e with
      | folder => simp at hcond
      | file content =>
        simp only [Bool.and_eq_true, Bool.not_eq_true'] at hcond
        exact ⟨rel, content, hmem, by simpa using hcond.1.2, rfl, hcond.2⟩
    · cases hentry
  · rintro ⟨rel, content, hmem, hout, rfl, hpath⟩
    refine ⟨(rel, .file content), hmem, ?_⟩
    dsimp only
    rw [if_pos]
    simp [hout, hpath]

theorem find_reached (hdir : d.lookup dir = .ok (p, e)) :
    ∃ found, find d dir = .ok found ∧ ∀ y, y ∈ found ↔
      Reached d.tree p dir e y ∧ ¬ (e = .folder ∧ Path.base dir = outputName) := by
  unfold find
  rw [hdir]
  cases e with
  | file content =>
    refine ⟨_, rfl, ?_⟩
    intro y
    unfold Reached
    split
    · rename_i hpath
      rw [List.mem_singleton]
      exact ⟨fun h => ⟨⟨h, h ▸ hpath⟩, nofun⟩, fun h => h.1.1⟩
    · rename_i hpath
      refine ⟨fun h => absurd h List.not_mem_nil, ?_⟩
      rintro ⟨⟨rfl, hy⟩, -⟩
      exact absurd hy hpath
  | folder =>
    refine ⟨_, rfl, ?_⟩
    intro y
    unfold Reached
    split
    · rename_i hbase
      refine ⟨fun h => absurd h List.not_mem_nil, ?_⟩
      rintro ⟨-, hother⟩
      exact absurd ⟨rfl, beq_iff_eq.1 hbase⟩ hother
    · rename_i hbase
      rw [mem_below_iff]
      exact ⟨fun h => ⟨h, fun hout => hbase (beq_iff_eq.2 hout.2)⟩, fun h => h.1⟩

end Source

namespace Watcher

variable {d : Disk} {p : Place} {e : Entry} {dir path y : String}

theorem tracker_register (w : Watcher) (p : Place) (label : String) :
    (w.register p label).tracker = w.tracker := by
  unfold register
  split <;> rfl

theorem isSome_recorded?_record {content : String} (hread : d.read path = .ok content)
    (w : Watcher) :
    ((w.record d path).tracker.recorded? y).isSome ↔ (w.tracker.recorded? y).isSome ∨ y = path := by
  unfold record
  rw [(Tracker.check_read hread).1 y]
  split
  · rename_i hy
    simp [hy]
  · rename_i hy
    simp [hy]

/-- The sources below a directory can be read. -/
def Readable (d : Disk) (p : Place) (dir : String) : Prop :=
  ∀ entry ∈ d.tree.below p, entry.2 ≠ .folder →
    ∃ content, d.read (Path.join dir ("/".intercalate entry.1)) = .ok content

instance : Decidable (Readable d p dir) :=
  decidable_of_iff (∀ entry ∈ d.tree.below p, entry.2 ≠ .folder →
      (d.read (Path.join dir ("/".intercalate entry.1))).toOption.isSome)
    (by simp only [Readable, Option.isSome_iff_exists, except_toOption_eq_some])

/-- An entry that has its path recorded. -/
def Records (dir : String) (entry : Place × Entry) (y : String) : Prop :=
  entry.2 ≠ .folder ∧ y = Path.join dir ("/".intercalate entry.1) ∧ Source.isPath y = true

theorem isSome_recorded?_addEntry {entry : Place × Entry} (hread : Readable d p dir)
    (hentry : entry ∈ d.tree.below p) (w : Watcher) :
    ((addEntry d p dir w entry).tracker.recorded? y).isSome ↔
      (w.tracker.recorded? y).isSome ∨ Records dir entry y := by
  obtain ⟨rel, e⟩ := entry
  unfold addEntry Records
  cases e with
  | folder => simp [tracker_register]
  | file content =>
    obtain ⟨x, hx⟩ := hread _ hentry nofun
    dsimp only
    split
    · rename_i hpath
      rw [isSome_recorded?_record hx]
      apply or_congr_right
      exact ⟨fun h => ⟨nofun, h, h ▸ hpath⟩, fun h => h.2.1⟩
    · rename_i hpath
      refine ⟨.inl, ?_⟩
      rintro (h | ⟨-, rfl, hy⟩)
      · exact h
      · exact absurd hy hpath

theorem isSome_recorded?_foldl_addEntry {entries : List (Place × Entry)} (hread : Readable d p dir)
    (hentries : ∀ entry ∈ entries, entry ∈ d.tree.below p) (w : Watcher) :
    ((entries.foldl (addEntry d p dir) w).tracker.recorded? y).isSome ↔
      (w.tracker.recorded? y).isSome ∨ ∃ entry ∈ entries, Records dir entry y := by
  induction entries generalizing w with
  | nil => simp
  | cons entry entries ih =>
    obtain ⟨hentry, hrest⟩ := List.forall_mem_cons.1 hentries
    rw [List.foldl_cons, ih hrest, isSome_recorded?_addEntry hread hentry, or_assoc,
      List.exists_mem_cons_iff]

theorem exists_records_iff :
    (∃ entry, (entry ∈ d.tree.below p ∧ covers entry.1 entry.2 = true) ∧ Records dir entry y) ↔
      Source.Below d.tree p dir y := by
  constructor
  · rintro ⟨⟨rel, e⟩, ⟨hmem, hcovers⟩, hfile, hy, hpath⟩
    cases e with
    | folder => exact absurd rfl hfile
    | file content => exact ⟨rel, content, hmem, by simpa [covers] using hcovers, hy, hpath⟩
  · rintro ⟨rel, content, hmem, hout, hy, hpath⟩
    refine ⟨(rel, .file content), ⟨hmem, ?_⟩, by simp, hy, hpath⟩
    simpa [covers] using hout

/-- Taking a path into account records the sources that it leads to and nothing else. -/
theorem isSome_recorded?_addTree (hdir : d.lookup dir = .ok (p, e)) (hread : Readable d p dir)
    (w : Watcher) : ((w.addTree d dir).tracker.recorded? y).isSome ↔
      (w.tracker.recorded? y).isSome ∨ Source.Reached d.tree p dir e y := by
  cases e with
  | folder =>
    rw [addTree_folder hdir, isSome_recorded?_foldl_addEntry hread fun _ h => (mem_covered.1 h).1,
      tracker_register]
    simp only [mem_covered, exists_records_iff, Source.Reached]
  | file content =>
    unfold addTree Source.Reached
    rw [hdir]
    dsimp only
    split
    · rename_i hpath
      rw [isSome_recorded?_record (Disk.read_eq_ok_iff.2 ⟨p, hdir⟩)]
      apply or_congr_right
      exact ⟨fun h => ⟨h, h ▸ hpath⟩, fun h => h.1⟩
    · rename_i hpath
      refine ⟨.inl, ?_⟩
      rintro (h | ⟨rfl, hy⟩)
      · exact h
      · exact absurd hy hpath

/-- The watcher records the sources that a path leads to, the build finds them unless the path names
a directory with the name of an output directory. So they agree unless there are sources below such
a directory. -/
theorem recorded_iff_found (hdir : d.lookup dir = .ok (p, e)) (hread : Readable d p dir) :
    ∃ found, Source.find d dir = .ok found ∧
      (∀ (w : Watcher) y, ((w.addTree d dir).tracker.recorded? y).isSome ↔
        (w.tracker.recorded? y).isSome ∨ Source.Reached d.tree p dir e y) ∧
      (∀ y, y ∈ found ↔ Source.Reached d.tree p dir e y ∧
        ¬ (e = .folder ∧ Path.base dir = Source.outputName)) ∧
      ((∀ y, ((({} : Watcher).addTree d dir).tracker.recorded? y).isSome ↔ y ∈ found) ↔
        (e = .folder → Path.base dir = Source.outputName →
          ∀ y, ¬ Source.Below d.tree p dir y)) := by
  obtain ⟨found, hfind, hfound⟩ := Source.find_reached hdir
  refine ⟨found, hfind, fun w y => isSome_recorded?_addTree hdir hread w, hfound, ?_⟩
  have hrecorded : ∀ y, ((({} : Watcher).addTree d dir).tracker.recorded? y).isSome ↔
      Source.Reached d.tree p dir e y := by
    intro y
    rw [isSome_recorded?_addTree hdir hread]
    exact or_iff_right (by simp [Tracker.recorded?])
  constructor
  · intro hagree hfolder hbase y hbelow
    subst hfolder
    exact ((hfound y).1 ((hagree y).1 ((hrecorded y).2 hbelow))).2 ⟨rfl, hbase⟩
  · intro hnone y
    rw [hrecorded, hfound]
    refine ⟨fun hy => ⟨hy, ?_⟩, fun h => h.1⟩
    rintro ⟨rfl, hbase⟩
    exact hnone rfl hbase y hy

/-- Sources in a directory and below it, some of them in an output directory. -/
theorem recorded_iff_found_sample :
    ∃ d : Disk, (Source.find d "src").toOption = some ["src/a.polite", "src/lib/b.polite"] ∧
      ∀ y, ((({} : Watcher).addTree d "src").tracker.recorded? y).isSome ↔
        y ∈ ["src/a.polite", "src/lib/b.polite"] := by
  let d : Disk := ⟨⟨[(["src"], .folder), (["src", "a.polite"], .file "a"),
    (["src", "generated"], .folder), (["src", "generated", "c.polite"], .file "c"),
    (["src", "lib"], .folder), (["src", "lib", "b.polite"], .file "b"),
    (["src", "lib", "notes"], .file "n")]⟩, []⟩
  have hdir : d.lookup "src" = .ok (["src"], .folder) := by decide +kernel
  have hread : Readable d ["src"] "src" := by decide +kernel
  have hfind : Source.find d "src" = .ok ["src/a.polite", "src/lib/b.polite"] := by decide +kernel
  obtain ⟨found, hfound, -, -, hagree⟩ := recorded_iff_found hdir hread
  cases hfind.symm.trans hfound
  have hbase : Path.base "src" ≠ Source.outputName := by decide +kernel
  exact ⟨d, except_toOption_eq_some.2 hfind, hagree.2 fun _ hout => absurd hout hbase⟩

/-- A source directory that has the name of an output directory: the watcher records the source in
it, the build does not find it. -/
theorem recorded_unfound :
    ∃ d : Disk, d.lookup "generated" = .ok (["generated"], .folder) ∧
      Readable d ["generated"] "generated" ∧
      ((({} : Watcher).addTree d "generated").tracker.recorded? "generated/a.polite").isSome ∧
      Source.find d "generated" = .ok [] :=
  ⟨⟨⟨[(["generated"], .folder), (["generated", "a.polite"], .file "a")]⟩, []⟩, by decide +kernel,
    by decide +kernel, by decide +kernel, by decide +kernel⟩

end Watcher

end Courtesy
