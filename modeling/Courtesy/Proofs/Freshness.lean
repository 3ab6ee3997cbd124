import Courtesy.Proofs.Outputs

/-!
# Builds and edits in turns

A build writes the programs of the sources that translate and removes nothing. So when sources are
edited and built in turns (`Build.History`), the program under a base name is that of the latest
build that had one for it (`Build.History.content?_program`). Main statement: after a build, a
source has a program exactly if it translates now, or there was a program with its base name at the
start, or an earlier build made one.
-/

namespace Courtesy

/-! ## Edits -/

/-- Sources have been created, changed or removed, and directories too: all other files are as they
were. -/
structure Disk.Edited (d d' : Disk) : Prop where
  sound : d'.Sound
  here : d'.here = d.here
  others : ∀ p, (∀ name ∈ p.getLast?, Source.isPath name = false) →
    d'.tree.file? p = d.tree.file? p

theorem Source.isPath_append_extension (name : String) : isPath (name ++ extension) = true := by
  unfold isPath Text.endsWith
  rw [List.isSuffixOf_iff_suffix, String.toList_append]
  exact List.suffix_append _ _

theorem Disk.Edited.of_write {d d' : Disk} {f content : String} (h : d.Sound)
    (hf : Source.isPath f = true) (hwrite : d.write f content = .ok d') : d.Edited d' := by
  obtain ⟨-, -, hw⟩ := Disk.write_written h hwrite
  refine ⟨hw.sound, hw.here, ?_⟩
  intro p hp
  rw [hw.file?, if_neg]
  rintro rfl
  have hname := hp _ (Source.getLast?_placeOf hf)
  rw [Source.isPath_append_extension] at hname
  cases hname

namespace Build

variable {c : Config} {root : String} {ids : Nat → String} {d₀ d d' : Disk} {ds : List Disk}
  {r : Except BuildFault Unit} {f : String}

theorem Output.isPath_name (o : Output) (stem : String) :
    Source.isPath (stem ++ o.ending) = false := by
  rw [Bool.eq_false_iff]
  intro h
  exact o.append_ending_ne_source _ _ (Text.dropTail_append h).symm

/-- Edits of sources leave the outputs alone. -/
theorem content?_of_edited (h : d.Sound) (hedit : d.Edited d') (c : Config) (root : String)
    (o : Output) (hf : Source.isPath f = true) :
    d'.content? (o.path c root f) = d.content? (o.path c root f) := by
  obtain ⟨raw, hraw⟩ : ∃ raw, o.path c root f = Path.clean raw := o.exists_clean hf
  have hlast : (d.placeOf (o.path c root f)).getLast? = some (Source.stem f ++ o.ending) :=
    o.getLast?_placeOf hf
  rw [hraw] at hlast ⊢
  apply h.content?_congr hedit.sound hedit.here
  apply hedit.others
  intro name hname
  cases hlast.symm.trans hname
  exact o.isPath_name (Source.stem f)

/-! ## Histories -/

/-- Edits and builds in turns, with the disks that were built, the latest first. -/
inductive History (c : Config) (root : String) (d₀ : Disk) : List Disk → Disk → Prop
  | start : History c root d₀ [] d₀
  | edit {ds : List Disk} {d d' : Disk} : History c root d₀ ds d → d.Edited d' →
      History c root d₀ ds d'
  | build {ds : List Disk} {d d' : Disk} {ids : Nat → String} {r : Except BuildFault Unit} :
      History c root d₀ ds d → (run c root ids).perform d = (r, d') → Completed r →
      History c root d₀ (d :: ds) d'

/-- The program that a build makes under a base name. -/
def made? (c : Config) (root : String) (d : Disk) (stem : String) : Option String :=
  (sources d c root).toOption.bind fun paths =>
    latest stem (fun _ g => (d.content? g).bind (program? c)) 0 paths

theorem made?_of_sources {stem : String} {paths : List String}
    (hsources : sources d c root = .ok paths) : made? c root d stem =
      latest stem (fun _ g => (d.content? g).bind (program? c)) 0 paths := by
  unfold made?
  rw [hsources, except_toOption_eq_some.2 rfl, Option.bind_some]

/-- The program under the base name of a source after builds, the latest first. -/
def left? (c : Config) (root : String) (d₀ : Disk) (f : String) : List Disk → Option String
  | [] => d₀.content? (programPath c root f)
  | d :: ds => (made? c root d (Source.stem f)).or (left? c root d₀ f ds)

theorem content?_program (h : d.Sound) (hrun : (run c root ids).perform d = (r, d'))
    (hr : Completed r) (hf : Source.isPath f = true) :
    d'.content? (programPath c root f) =
      (made? c root d (Source.stem f)).or (d.content? (programPath c root f)) := by
  obtain ⟨paths, hsources, -, hbuilt, -⟩ := run_built h hrun hr
  rw [made?_of_sources hsources]
  exact hbuilt.outputs .program f hf

theorem History.sound (h₀ : d₀.Sound) (h : History c root d₀ ds d) : d.Sound := by
  induction h with
  | start => exact h₀
  | edit _ hedit _ => exact hedit.sound
  | build _ hrun hr ih =>
    obtain ⟨paths, -, -, hbuilt, -⟩ := run_built ih hrun hr
    exact hbuilt.sound

theorem History.content?_program (h₀ : d₀.Sound) (h : History c root d₀ ds d)
    (hf : Source.isPath f = true) :
    d.content? (programPath c root f) = left? c root d₀ f ds := by
  induction h with
  | start => rfl
  | edit h hedit ih =>
    rw [← ih]
    exact content?_of_edited (h.sound h₀) hedit c root .program hf
  | build h hrun hr ih =>
    rw [Build.content?_program (h.sound h₀) hrun hr hf, ih]
    rfl

/-! ## Programs after a build -/

/-- Sources with one base name are one file. -/
def NamesDistinct (d : Disk) (paths : List String) : Prop :=
  ∀ f ∈ paths, ∀ g ∈ paths, Source.stem f = Source.stem g → d.lookup f = d.lookup g

/-- Some source of a disk has a base name and translates. -/
def Makes (c : Config) (root : String) (d : Disk) (stem : String) : Prop :=
  ∃ paths f content, sources d c root = .ok paths ∧ f ∈ paths ∧ Source.stem f = stem ∧
    d.read f = .ok content ∧ (translate content).succeeded = true

theorem isSome_program? {content : String} :
    (program? c content).isSome ↔ (translate content).succeeded = true := by
  unfold program?
  split
  · rename_i hok
    simp [hok]
  · rename_i hok
    simp [hok]

theorem isSome_made?_iff {stem : String} : (made? c root d stem).isSome ↔ Makes c root d stem := by
  unfold Makes
  cases hsources : sources d c root with
  | error fault => simp [made?, hsources, Except.toOption]
  | ok paths =>
    rw [made?_of_sources hsources, isSome_latest_iff]
    constructor
    · rintro ⟨g, hg, hstem, hsome⟩
      obtain ⟨x, hx⟩ := Option.isSome_iff_exists.1 hsome
      obtain ⟨content, hcontent, hprogram⟩ := Option.bind_eq_some_iff.1 hx
      exact ⟨paths, g, content, rfl, hg, hstem, Disk.content?_eq_some.1 hcontent,
        isSome_program?.1 (by rw [hprogram]; rfl)⟩
    · rintro ⟨paths', g, content, hpaths, hg, hstem, hread, hok⟩
      cases hpaths
      refine ⟨g, hg, hstem, ?_⟩
      rw [Disk.content?_eq_some.2 hread, Option.bind_some]
      exact isSome_program?.2 hok

theorem isSome_left?_iff : (left? c root d₀ f ds).isSome ↔
    (∃ x, d₀.read (programPath c root f) = .ok x) ∨ ∃ d ∈ ds, Makes c root d (Source.stem f) := by
  induction ds with
  | nil =>
    rw [left?, Option.isSome_iff_exists]
    simp only [Disk.content?_eq_some, List.not_mem_nil, false_and, exists_false, or_false]
  | cons d ds ih =>
    rw [left?, Option.isSome_or, Bool.or_eq_true, isSome_made?_iff, ih, List.exists_mem_cons_iff]
    exact or_left_comm

/-- What a build makes of a source that shares its base name with no other file. -/
theorem made?_eq {paths : List String} {content : String} (hsources : sources d c root = .ok paths)
    (hdistinct : NamesDistinct d paths) (hf : f ∈ paths) (hread : d.read f = .ok content) :
    made? c root d (Source.stem f) = program? c content := by
  rw [made?_of_sources hsources]
  apply latest_eq_of_forall ⟨f, hf, rfl⟩
  intro g hg hstem _
  have hsame : d.read g = .ok content := by
    rw [Disk.read_eq_ok_iff] at hread ⊢
    rwa [hdistinct g hg f hf hstem]
  rw [Disk.content?_eq_some.2 hsame, Option.bind_some]

/-- After edits and builds in turns and one more build: the program of a source is that of its
content if the content translates. If it does not, there still is a program exactly if there was one
with that base name at the start or an earlier build made one. -/
theorem program_after_history {paths : List String} (h₀ : d₀.Sound)
    (hhistory : History c root d₀ ds d) (hrun : (run c root ids).perform d = (r, d'))
    (hr : Completed r) (hsources : sources d c root = .ok paths) (hdistinct : NamesDistinct d paths)
    (hf : f ∈ paths) :
    ∃ content, d.read f = .ok content ∧ d'.read f = .ok content ∧
      ((translate content).succeeded = true →
        d'.read (programPath c root f) = .ok ((translate content).code c.options)) ∧
      ((∃ x, d'.read (programPath c root f) = .ok x) ↔
        (translate content).succeeded = true ∨
          (∃ x, d₀.read (programPath c root f) = .ok x) ∨
          ∃ e ∈ ds, Makes c root e (Source.stem f)) := by
  have h := hhistory.sound h₀
  obtain ⟨paths', hpaths, htidy, hbuilt, -⟩ := run_built h hrun hr
  cases hsources.symm.trans hpaths
  obtain ⟨content, hread, hkept⟩ := hbuilt.exists_content hf (htidy f hf)
  have hprogram : d'.content? (programPath c root f) =
      (program? c content).or (left? c root d₀ f ds) := by
    have hpath := (htidy f hf).isPath
    rw [content?_program h hrun hr hpath, made?_eq hsources hdistinct hf hread,
      hhistory.content?_program h₀ hpath]
  refine ⟨content, hread, hkept, ?_, ?_⟩
  · intro hok
    rw [← Disk.content?_eq_some, hprogram]
    simp [program?, hok]
  · rw [← isSome_program?, ← isSome_left?_iff, ← Bool.or_eq_true, ← Option.isSome_or, ← hprogram,
      Option.isSome_iff_exists]
    simp only [Disk.content?_eq_some]

/-- A source that does not translate is built, mended and built again: then it has its program. -/
theorem program_after_history_sample :
    ∃ (d₀ d₁ d₂ d₃ : Disk) (fault : BuildFault) (content : String),
      (run (.default "p") "." fun _ => "0").perform d₀ = (.error fault, d₁) ∧
      d₁.write "src/a.polite" content = .ok d₂ ∧
      (run (.default "p") "." fun _ => "1").perform d₂ = (.ok (), d₃) ∧
      d₃.read "generated/cs/a.cs" =
        .ok ((translate content).code (Config.default "p").options) := by
  let content := "please define function void main() \x7b\n\x7d"
  let d₀ : Disk :=
    ⟨⟨[(["src"], .folder), (["src", "a.polite"], .file "please create integer x")]⟩, []⟩
  obtain ⟨h₀, hpath, htranslates, hfailed, hmend⟩ : d₀.Sound ∧
      programPath (.default "p") "." "src/a.polite" = "generated/cs/a.cs" ∧
      (translate content).succeeded = true ∧
      ((run (.default "p") "." fun _ => "0").perform d₀).1 =
        .error (.untranslated ["src/a.polite"] 1) ∧
      (((run (.default "p") "." fun _ => "0").perform d₀).2.write "src/a.polite"
      content).toOption.any (fun d₂ =>
        sources d₂ (.default "p") "." = .ok ["src/a.polite"] ∧
          d₂.read "src/a.polite" = .ok content ∧
        ((run (.default "p") "." fun _ => "1").perform d₂).1 = .ok ()) = true := by
    decide +kernel
  have hrun₀ := Work.perform_eq_of_fst hfailed
  obtain ⟨d₂, hwrite, hfacts⟩ := (Option.any_eq_true _ _).1 hmend
  obtain ⟨hsources, hread, hok⟩ := of_decide_eq_true hfacts
  rw [except_toOption_eq_some] at hwrite
  have hhistory := (History.start.build hrun₀ trivial)
  have hedit := Disk.Edited.of_write (hhistory.sound h₀) (by decide) hwrite
  have hdistinct : NamesDistinct d₂ ["src/a.polite"] := by
    intro f hf g hg _
    rw [List.mem_singleton.1 hf, List.mem_singleton.1 hg]
  obtain ⟨content', hcontent, -, hprogram, -⟩ := program_after_history h₀ (hhistory.edit hedit)
    (Work.perform_eq_of_fst hok) trivial hsources hdistinct List.mem_cons_self
  cases hread.symm.trans hcontent
  refine ⟨d₀, _, d₂, _, _, content, hrun₀, hwrite, Work.perform_eq_of_fst hok, ?_⟩
  rw [← hpath]
  exact hprogram htranslates

/-- A source is built, spoilt and built again: the second build reports it as failed and leaves the
program of the first. -/
theorem program_stale :
    ∃ (d₀ d₁ d₂ d₃ : Disk) (content : String), d₀.Sound ∧
      (run (.default "p") "." fun _ => "0").perform d₀ = (.ok (), d₁) ∧
      d₁.write "src/a.polite" content = .ok d₂ ∧ (translate content).succeeded = false ∧
      (run (.default "p") "." fun _ => "1").perform d₂ =
        (.error (.untranslated ["src/a.polite"] 1), d₃) ∧
      (d₃.read (programPath (.default "p") "." "src/a.polite")).toOption.isSome := by
  let content := "please create integer x"
  let d₀ : Disk := ⟨⟨[(["src"], .folder),
    (["src", "a.polite"], .file "please define function void main() \x7b\n\x7d")]⟩, []⟩
  obtain ⟨hsound, hrefused, hbuilt, hspoil⟩ : d₀.Sound ∧ (translate content).succeeded = false ∧
      ((run (.default "p") "." fun _ => "0").perform d₀).1 = .ok () ∧
      (((run (.default "p") "." fun _ => "0").perform d₀).2.write "src/a.polite"
      content).toOption.any (fun d₂ =>
        ((run (.default "p") "." fun _ => "1").perform d₂).1 =
          .error (.untranslated ["src/a.polite"] 1) ∧
        (((run (.default "p") "." fun _ => "1").perform d₂).2.read
          (programPath (.default "p") "." "src/a.polite")).toOption.isSome) = true := by
    decide +kernel
  obtain ⟨d₂, hwrite, hfacts⟩ := (Option.any_eq_true _ _).1 hspoil
  obtain ⟨hfail, hleft⟩ := of_decide_eq_true hfacts
  rw [except_toOption_eq_some] at hwrite
  exact ⟨d₀, _, d₂, _, content, hsound, Work.perform_eq_of_fst hbuilt, hwrite, hrefused,
    Work.perform_eq_of_fst hfail, hleft⟩

end Build

end Courtesy
