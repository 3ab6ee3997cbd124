import Courtesy.Proofs.ConfigText
import Courtesy.Proofs.Saving

/-!
# The name of a new project

This file follows the configuration of a new project from the disk that it is written to back to the
settings that are loaded. None of the other files of the project takes its place
(`Starter.read_created`), so what is loaded is what the decoder reads of its text. Main statement:
for every decoder that implements plain scalars, a project whose name is a plain scalar is loaded
with that name, and of the names that start like one no other is.
-/

namespace Courtesy

open Courtesy.Path

/-! ## Work that is done for each item of a list -/

namespace Work

variable {ε α : Type} {d d' : Disk}

theorem perform_forIn_cons {f : α → Work ε PUnit} {x : α} {xs : List α}
    (h : (forIn (x :: xs) PUnit.unit fun a _ => do
      f a
      pure (ForInStep.yield PUnit.unit)).perform d = (.ok PUnit.unit, d')) :
    ∃ d₁, (f x).perform d = (.ok PUnit.unit, d₁) ∧
      (forIn xs PUnit.unit fun a _ => do
        f a
        pure (ForInStep.yield PUnit.unit)).perform d₁ = (.ok PUnit.unit, d') := by
  rw [List.forIn_cons] at h
  obtain ⟨_, d₁, hstep, hrest⟩ := perform_bind_ok.1 h
  obtain ⟨_, d₂, hfirst, hyield⟩ := perform_bind_ok.1 hstep
  cases hyield
  exact ⟨_, hfirst, hrest⟩

end Work

namespace Disk

variable {d d' d'' : Disk} {p : Place} {ps : List Place} {content : String}

/-- Files may have been written at some places and directories made; all else is as it was. -/
structure Touched (d d' : Disk) (ps : List Place) : Prop where
  sound : d'.Sound
  here : d'.here = d.here
  file? : ∀ q, q ∉ ps → d'.tree.file? q = d.tree.file? q

theorem Written.then_touched (h : d.Written d' p content) (h' : d'.Touched d'' ps) :
    d.Touched d'' (p :: ps) := by
  refine ⟨h'.sound, h'.here.trans h.here, ?_⟩
  intro q hq
  rw [List.mem_cons, not_or] at hq
  rw [h'.file? q hq.2, h.file?, if_neg hq.1]

end Disk

namespace Starter

variable {d d' : Disk} {path : String}

theorem makeFolders_all {fs : List String} (h : d.Sound)
    (hmake : (forIn fs PUnit.unit fun f _ => do
      Work.makeFolders (join path f) (Fault.folder (join path f))
      pure (ForInStep.yield PUnit.unit)).perform d = (.ok PUnit.unit, d')) : d.Furnished d' := by
  induction fs generalizing d with
  | nil =>
    cases hmake
    exact .refl h
  | cons f fs ih =>
    obtain ⟨d₁, hfirst, hrest⟩ := Work.perform_forIn_cons hmake
    have hmade := Work.makeFolders_furnished h hfirst
    exact hmade.trans (ih hmade.sound hrest)

theorem write_all {fs : List (String × String)} (h : d.Sound)
    (hwrite : (forIn fs PUnit.unit fun (f : String × String) _ => do
      Work.write (join path f.1) f.2 (Fault.file f.1)
      pure (ForInStep.yield PUnit.unit)).perform d = (.ok PUnit.unit, d')) :
    d.Touched d' (fs.map fun f => d.placeOf (join path f.1)) := by
  induction fs generalizing d with
  | nil =>
    cases hwrite
    exact ⟨h, rfl, fun _ _ => rfl⟩
  | cons f fs ih =>
    obtain ⟨d₁, hfirst, hrest⟩ := Work.perform_forIn_cons hwrite
    obtain ⟨-, -, hw⟩ := Disk.write_written h (Work.write_ok hfirst)
    have htouched := ih hw.sound hrest
    simp only [Disk.placeOf_congr hw.here] at htouched
    exact hw.then_touched htouched

/-- The files of a project besides its configuration. -/
def otherFiles : List String :=
  ["README.md", ".gitignore", "src/hello.polite", "src/greeting.polite"]

theorem isElement_of_file {file n : String} (hfile : file ∈ Config.fileName :: otherFiles)
    (hn : n ∈ elements file) : IsElement n := by
  have hall : (Config.fileName :: otherFiles).all fun file => (elements file).all fun n =>
      n != "" && n != "." && n != ".." && !n.toList.contains '/' := by
    decide +kernel
  have h := List.all_eq_true.1 (List.all_eq_true.1 hall file hfile) n hn
  simp only [Bool.and_eq_true, Bool.not_eq_true', bne_iff_ne, List.contains_eq_mem,
    decide_eq_false_iff_not] at h
  exact ⟨h.1.1.1, h.1.1.2, h.1.2, h.2⟩

/-- The configuration has a place of its own among the files of a project. -/
theorem placeOf_otherFiles {file : String} (hfile : file ∈ otherFiles) :
    d.placeOf (join path file) ≠ d.placeOf (join path Config.fileName) := by
  have hother : elements file ≠ [] ∧ elements file ≠ elements Config.fileName := by
    have hall : otherFiles.all fun file =>
        elements file != [] && elements file != elements Config.fileName := by decide +kernel
    simpa using List.all_eq_true.1 hall file hfile
  rw [Disk.placeOf_join_elements (fun _ => isElement_of_file (List.mem_cons_of_mem _ hfile)) rfl
      hother.1,
    Disk.placeOf_join_elements (fun _ => isElement_of_file List.mem_cons_self) rfl
      (by decide +kernel)]
  exact fun h => hother.2 (List.append_cancel_left h)

/-- The configuration of a project that has been set up can be read where it belongs. -/
theorem read_created (h : d.Sound) (hcreate : (create path).perform d = (.ok (), d')) :
    d'.read (join path Config.fileName) = .ok (configText (base path)) := by
  unfold create at hcreate
  obtain ⟨_, d₁, hproject, hcreate⟩ := Work.perform_bind_ok.1 hcreate
  obtain ⟨_, d₂, hfolders, hcreate⟩ := Work.perform_bind_ok.1 hcreate
  obtain ⟨_, d₃, hfiles, hcreate⟩ := Work.perform_bind_ok.1 hcreate
  cases hcreate
  have hmade := (Work.makeFolders_furnished h hproject).trans
    (makeFolders_all (Work.makeFolders_furnished h hproject).sound hfolders)
  have hwrites : (forIn (files (base path)) PUnit.unit fun (f : String × String) _ => do
      Work.write (join path f.1) f.2 (Fault.file f.1)
      pure (ForInStep.yield PUnit.unit)).perform d₂ = (.ok PUnit.unit, d') := hfiles
  have hcons : files (base path) =
      (Config.fileName, configText (base path)) :: (files (base path)).tail := rfl
  have hothers : (files (base path)).tail.map (·.1) = otherFiles := rfl
  rw [hcons] at hwrites
  obtain ⟨d₄, hconfig, hrest⟩ := Work.perform_forIn_cons hwrites
  obtain ⟨husable, hnames, hw⟩ := Disk.write_written hmade.sound (Work.write_ok hconfig)
  have hkept := write_all hw.sound hrest
  have hfree : d₂.placeOf (join path Config.fileName) ∉
      (files (base path)).tail.map fun f => d₄.placeOf (join path f.1) := by
    intro hmem
    obtain ⟨f, hf, hplace⟩ := List.mem_map.1 hmem
    rw [Disk.placeOf_congr hw.here] at hplace
    exact placeOf_otherFiles (hothers ▸ List.mem_map_of_mem hf) hplace
  obtain ⟨raw, hraw⟩ := join_clean (p := path) (q := Config.fileName) husable.ne_empty
  have hcontent : d'.tree.file? (d'.placeOf (join path Config.fileName)) =
      some (configText (base path)) := by
    rw [Disk.placeOf_congr (hkept.here.trans hw.here), hkept.file? _ hfree, hw.file?, if_pos rfl]
  rw [hraw] at husable hnames hcontent
  rw [← Disk.content?_eq_some, hraw, hkept.sound.content?_eq_some_iff]
  exact ⟨husable, hnames, hcontent⟩

theorem load_eq_ok_iff {decode : String → Option Config} (h : d.Sound)
    (hcreate : (create path).perform d = (.ok (), d')) {c : Config} :
    Config.load d' path decode = .ok c ↔
      (decode (configText (base path))).map Config.withDefaults = some c := by
  unfold Config.load
  simp only [read_created h hcreate]
  cases decode (configText (base path)) <;> simp

/-- A project that has been set up has the configuration that it states, if its name is read back as
it stands. Of the names on one line that start like a plain scalar no other one is read back. -/
theorem load_created {decode : String → Option Config} (hdecode : ReadsScalars decode)
    (h : d.Sound) (hcreate : (create path).perform d = (.ok (), d')) :
    (isPlainName (base path) → Config.load d' path decode = .ok (config (base path))) ∧
      (Yaml.Plain.opens (base path).toList →
        ((∃ c, Config.load d' path decode = .ok c ∧ c.name = base path) ↔
          isPlainName (base path))) := by
  have hplain (hname : isPlainName (base path)) :
      Config.load d' path decode = .ok (config (base path)) := by
    rw [load_eq_ok_iff h hcreate, hdecode.plain hname]
    rfl
  refine ⟨hplain, fun hopens => ⟨?_, fun hname => ⟨_, hplain hname, rfl⟩⟩⟩
  rintro ⟨c, hload, hname⟩
  obtain ⟨c, hread, rfl⟩ := Option.map_eq_some_iff.1 ((load_eq_ok_iff h hcreate).1 hload)
  exact hdecode.isPlainName_of_name hopens hread hname

/-- A project whose name holds a blank and a colon, set up in an empty directory and read by the
decoder that the program runs with. -/
theorem load_created_spaced :
    Disk.Sound ⟨⟨[]⟩, []⟩ ∧ ReadsScalars Config.ofText? ∧
      Config.load ((create "my tools:2").perform ⟨⟨[]⟩, []⟩).2 "my tools:2" =
        .ok (config "my tools:2") := by
  have hsound : Disk.Sound ⟨⟨[]⟩, []⟩ := by decide +kernel
  have hcreated : ((create "my tools:2").perform ⟨⟨[]⟩, []⟩).1 = .ok () := by decide +kernel
  exact ⟨hsound, readsScalars_ofText?,
    (load_created readsScalars_ofText? hsound (Work.perform_eq_of_fst hcreated)).1
      (by decide +kernel)⟩

/-- The name of a project is cut off where a comment starts, by every decoder that implements plain
scalars. -/
theorem load_created_cut :
    ((create "proj #1").perform ⟨⟨[]⟩, []⟩).1 = .ok () ∧ base "proj #1" = "proj #1" ∧
      ∀ decode, ReadsScalars decode →
        Config.load ((create "proj #1").perform ⟨⟨[]⟩, []⟩).2 "proj #1" decode =
          .ok (config "proj") := by
  obtain ⟨hsound, hcreated, hbase, hplain⟩ : Disk.Sound ⟨⟨[]⟩, []⟩ ∧
      ((create "proj #1").perform ⟨⟨[]⟩, []⟩).1 = .ok () ∧ base "proj #1" = "proj #1" ∧
      isPlainName "proj" := by
    decide +kernel
  refine ⟨hcreated, hbase, fun decode hdecode => ?_⟩
  have hread : decode (configText "proj #1") = decode (configText "proj") :=
    @hdecode.comment ['p', 'r', 'o', 'j'] ['1'] ' ' rfl rfl (List.forall_mem_singleton.2 ⟨rfl, rfl⟩)
  rw [load_eq_ok_iff hsound (Work.perform_eq_of_fst hcreated), hbase, hread, hdecode.plain hplain]
  rfl

end Starter

end Courtesy
