import Courtesy.Project.Build
import Courtesy.Proofs.Saving

/-!
# What a build leaves behind

The outputs of a source have its base name, whatever directory the source is in. Programs, reports
and sources are told apart by how their names end (`Build.Output.placeOf_inj`,
`Build.Output.placeOf_ne_source`), so building a source touches its own two outputs and no source
(`Build.file_built`). A build goes through the sources one after the other (`Build.Built`,
`Build.files_built`), and of several with one base name the last that leaves anything decides
(`Build.latest`). Main statement: after a build that succeeds, the outputs under each base name are
those of the last source that has it.
-/

namespace Courtesy

theorem Text.dropTail_append {tail s : String} (h : Text.endsWith tail s = true) :
    Text.dropTail tail s ++ tail = s := by
  obtain ⟨front, hfront⟩ := List.isSuffixOf_iff_suffix.1 h
  unfold Text.dropTail
  rw [if_pos h]
  apply String.toList_injective
  rw [String.toList_append, String.toList_ofList, ← hfront]
  simp

theorem Text.append_ne_append {a b : String} {x y : Char} (ha : a.toList.getLast? = some x)
    (hb : b.toList.getLast? = some y) (hxy : x ≠ y) (s t : String) : s ++ a ≠ t ++ b := by
  intro h
  have hlast := congrArg (fun u => u.toList.getLast?) h
  simp only [String.toList_append, List.getLast?_append, ha, hb, Option.some_or,
    Option.some.injEq] at hlast
  exact hxy hlast

namespace Path

theorem isElement_append {name ending : String} (hname : '/' ∉ name.toList)
    (hending : '/' ∉ ending.toList) (hlong : 2 < ending.toList.length) :
    IsElement (name ++ ending) := by
  have hlength : ∀ other : String, other.toList.length ≤ 2 → name ++ ending ≠ other := by
    intro other hother heq
    rw [← heq, String.toList_append, List.length_append] at hother
    omega
  refine ⟨hlength "" (by decide), hlength "." (by decide), hlength ".." (by decide), ?_⟩
  rw [String.toList_append, List.mem_append, not_or]
  exact ⟨hname, hending⟩

end Path

/-! ## Sources -/

namespace Source

open Text

variable {f : String} {d : Disk}

theorem getLast?_extension : extension.toList.getLast? = some 'e' := by decide

/-- The path of a source as a build finds it. -/
structure Tidy (f : String) : Prop where
  isPath : Source.isPath f = true
  clean : ∃ raw, f = Path.clean raw

theorem elements_of_isPath (h : isPath f = true) :
    ∃ front, Path.elements f = front ++ [stem f ++ extension] ∧ '/' ∉ (stem f).toList := by
  obtain ⟨front, name, helements, hslash, hends, hpath⟩ :=
    Path.exists_last_endsWith (by decide) h
  have hne : name ≠ "" := by
    rintro rfl
    exact absurd hends (by decide)
  have hbase : Path.base f = name := by
    rcases hpath with rfl | ⟨a, rfl⟩
    · exact Path.base_slashless hne hslash
    · exact Path.base_slash hne hslash a
  have hstem : stem f ++ extension = name := by
    unfold stem
    rw [hbase, dropTail_append hends]
  refine ⟨front, hstem ▸ helements, ?_⟩
  intro hmem
  apply hslash
  rw [← hstem, String.toList_append, List.mem_append]
  exact .inl hmem

/-- The name of the place that the path of a source leads to. -/
theorem getLast?_placeOf (h : isPath f = true) :
    (d.placeOf f).getLast? = some (stem f ++ extension) := by
  obtain ⟨front, helements, hslash⟩ := elements_of_isPath h
  have hname : Path.IsElement (stem f ++ extension) :=
    Path.isElement_append hslash (by decide) (by decide)
  unfold Disk.placeOf Disk.names
  rw [helements, List.filter_append, List.filter_cons_of_pos (by simpa using hname.ne_empty),
    List.filter_nil, Place.walk_append,
    Place.walk_plain (by simpa using ⟨hname.ne_here, hname.ne_up⟩), List.getLast?_concat]

theorem isPath_of_mem_find {root : String} {found : List String} (h : find d root = .ok found)
    (hf : f ∈ found) : isPath f = true ∧ (f = root ∨ ∃ rel, f = Path.join root rel) := by
  unfold find at h
  split at h
  · cases h
    cases hf
  · cases h
  · cases h
    split at hf
    · rename_i hroot
      rw [List.mem_singleton.1 hf]
      exact ⟨hroot, .inl rfl⟩
    · cases hf
  · cases h
    split at hf
    · cases hf
    · obtain ⟨entry, -, hentry⟩ := List.mem_filterMap.1 hf
      dsimp only at hentry
      split at hentry
      · rename_i hcond
        cases hentry
        rw [Bool.and_eq_true] at hcond
        exact ⟨hcond.2, .inr ⟨_, rfl⟩⟩
      · cases hentry

end Source

namespace Build

variable {c : Config} {root : String} {ids : Nat → String} {d d₁ d' : Disk} {f g : String}

variable {paths : List String} {stem : String} {i : Nat} {fault : BuildFault}

theorem sources_ok (h : sources d c root = .ok paths) (hf : f ∈ paths) :
    ∃ dir ∈ c.sourcePaths root, ∃ found, Source.find d dir = .ok found ∧ f ∈ found := by
  unfold sources at h
  obtain ⟨founds, hfounds, h⟩ := except_bind_ok.1 h
  cases h
  obtain ⟨found, hfound, hf⟩ := List.mem_flatten.1 hf
  obtain ⟨hlength, hall⟩ := mapM_ok hfounds
  obtain ⟨k, hk⟩ := List.mem_iff_getElem?.1 hfound
  have hlt : k < (c.sourcePaths root).length := hlength ▸ (List.getElem?_eq_some_iff.1 hk).1
  obtain ⟨found', hfound', hfind⟩ := hall k _ (List.getElem?_eq_getElem hlt)
  cases hk.symm.trans hfound'
  refine ⟨_, List.getElem_mem hlt, found, ?_, hf⟩
  split at hfind
  · cases hfind
    assumption
  · cases hfind

theorem tidy_of_mem_sources (h : sources d c root = .ok paths) (hf : f ∈ paths) :
    Source.Tidy f := by
  obtain ⟨dir, hdir, found, hfound, hf⟩ := sources_ok h hf
  obtain ⟨hpath, hroot⟩ := Source.isPath_of_mem_find hfound hf
  have hne : f ≠ "" := by
    rintro rfl
    exact absurd hpath (by decide)
  refine ⟨hpath, ?_⟩
  rcases hroot with rfl | ⟨rel, rfl⟩
  · obtain ⟨name, -, rfl⟩ := List.mem_map.1 hdir
    exact Path.join_clean hne
  · exact Path.join_clean hne

/-! ## Outputs -/

/-- What is built of a source. -/
inductive Output where
  | program
  | report
  deriving DecidableEq

/-- The program that a text is translated to, if it is. -/
def program? (c : Config) (content : String) : Option String :=
  if (translate content).succeeded then some ((translate content).code c.options) else none

namespace Output

def path (c : Config) (root f : String) : Output → String
  | program => programPath c root f
  | report => reportPath c root f

/-- The directory for an output, and how its name goes on behind the base name of the source. -/
def folder : Output → String
  | program => "cs"
  | report => "reports"

def ending : Output → String
  | program => ".cs"
  | report => ".yaml"

theorem getLast?_ending_program : program.ending.toList.getLast? = some 's' := by decide

theorem getLast?_ending_report : report.ending.toList.getLast? = some 'l' := by decide

/-- No output has the name of a source. -/
theorem append_ending_ne_source (o : Output) (s t : String) :
    s ++ o.ending ≠ t ++ Source.extension := by
  cases o
  · exact Text.append_ne_append getLast?_ending_program Source.getLast?_extension (by decide) s t
  · exact Text.append_ne_append getLast?_ending_report Source.getLast?_extension (by decide) s t

/-- What a source leaves on a disk if it is built as the `i`-th. -/
def text? (c : Config) (root : String) (ids : Nat → String) (d : Disk) (i : Nat) (f : String) :
    Output → Option String
  | program => (d.content? f).bind (program? c)
  | report => (d.content? f).map fun content => (Build.report c root (ids i) f content).render

theorem path_eq (o : Output) : o.path c root f =
    Path.join (c.outputPath root) (o.folder ++ "/" ++ (Source.stem f ++ o.ending)) := by
  cases o
  · show Path.join _ ("cs/" ++ Source.stem f ++ ".cs") = _
    rw [String.append_assoc]
    rfl
  · show Path.join _ ("reports/" ++ Source.stem f ++ ".yaml") = _
    rw [String.append_assoc]
    rfl

/-- The outputs of two sources with one base name have the same path. -/
theorem path_congr (o : Output) (h : Source.stem f = Source.stem g) :
    o.path c root f = o.path c root g := by
  rw [path_eq, path_eq, h]

theorem isElement_folder (o : Output) : Path.IsElement o.folder := by
  cases o <;> constructor <;> decide

section path

variable (o : Output) (hf : Source.isPath f = true)
include hf

theorem isElement_name : Path.IsElement (Source.stem f ++ o.ending) := by
  obtain ⟨-, -, hslash⟩ := Source.elements_of_isPath hf
  apply Path.isElement_append hslash
  · cases o <;> decide
  · cases o <;> decide

theorem exists_clean : ∃ raw, o.path c root f = Path.clean raw := by
  obtain ⟨raw, hraw, -⟩ :=
    Path.cleanElements_join o.isElement_folder (o.isElement_name hf) (c.outputPath root)
  exact ⟨raw, o.path_eq.trans hraw⟩

theorem getLast?_placeOf : (d.placeOf (o.path c root f)).getLast? =
    some (Source.stem f ++ o.ending) := by
  rw [path_eq, Disk.placeOf_join o.isElement_folder (o.isElement_name hf)]
  simp

/-- The place of an output tells what it is the output of, up to the base name. -/
theorem placeOf_inj {o' : Output} (hg : Source.isPath g = true)
    (h : d.placeOf (o.path c root f) = d.placeOf (o'.path c root g)) :
    o = o' ∧ Source.stem f = Source.stem g := by
  have hname := congrArg List.getLast? h
  rw [o.getLast?_placeOf hf, o'.getLast?_placeOf hg, Option.some.injEq] at hname
  have hother := Text.append_ne_append getLast?_ending_program getLast?_ending_report (by decide)
  cases o <;> cases o'
  · exact ⟨rfl, (String.append_left_inj _).1 hname⟩
  · exact absurd hname (hother _ _)
  · exact absurd hname.symm (hother _ _)
  · exact ⟨rfl, (String.append_left_inj _).1 hname⟩

/-- No output is put in the place of a source. -/
theorem placeOf_ne_source (hg : Source.isPath g = true) :
    d.placeOf (o.path c root f) ≠ d.placeOf g := by
  intro h
  have hname := congrArg List.getLast? h
  rw [o.getLast?_placeOf hf, Source.getLast?_placeOf hg, Option.some.injEq] at hname
  exact o.append_ending_ne_source _ _ hname

end path

end Output

/-! ## Building one source after the other -/

/-- What the sources with a base name leave: the last of them that leaves anything decides. The
`i`-th source is the first of the list. -/
def latest (stem : String) (text? : Nat → String → Option String) :
    Nat → List String → Option String
  | _, [] => none
  | i, f :: rest =>
    (latest stem text? (i + 1) rest).or (if Source.stem f = stem then text? i f else none)

/-- Sources have been built, the `i`-th of all and those behind it. -/
structure Built (c : Config) (root : String) (ids : Nat → String) (d : Disk) (i : Nat)
    (paths : List String) (d' : Disk) : Prop where
  sound : d'.Sound
  here : d'.here = d.here
  read : ∀ f ∈ paths, (d.content? f).isSome
  sources : ∀ f, Source.Tidy f → d'.content? f = d.content? f
  outputs : ∀ (o : Output) f, Source.isPath f = true → d'.content? (o.path c root f) =
    (latest (Source.stem f) (fun i f => o.text? c root ids d i f) i paths).or
      (d.content? (o.path c root f))

theorem latest_congr {text? text?' : Nat → String → Option String}
    (h : ∀ f ∈ paths, ∀ i, text? i f = text?' i f) :
    latest stem text? i paths = latest stem text?' i paths := by
  induction paths generalizing i with
  | nil => rfl
  | cons f rest ih =>
    obtain ⟨hf, hrest⟩ := List.forall_mem_cons.1 h
    rw [latest, latest, ih hrest, hf]

theorem latest_eq_none {text? : Nat → String → Option String}
    (h : ∀ f ∈ paths, Source.stem f = stem → ∀ i, text? i f = none) :
    latest stem text? i paths = none := by
  induction paths generalizing i with
  | nil => rfl
  | cons f rest ih =>
    obtain ⟨hf, hrest⟩ := List.forall_mem_cons.1 h
    rw [latest, ih hrest, Option.none_or]
    split
    · rename_i hstem
      exact hf hstem i
    · rfl

/-- If all sources with a base name leave the same, it does not matter which is the last. -/
theorem latest_eq_of_forall {text? : Nat → String → Option String} {x? : Option String}
    (hex : ∃ f ∈ paths, Source.stem f = stem)
    (h : ∀ f ∈ paths, Source.stem f = stem → ∀ i, text? i f = x?) :
    latest stem text? i paths = x? := by
  induction paths generalizing i with
  | nil =>
    obtain ⟨f, hf, -⟩ := hex
    cases hf
  | cons g rest ih =>
    obtain ⟨hg, hrest⟩ := List.forall_mem_cons.1 h
    rw [latest]
    by_cases hlater : ∃ f ∈ rest, Source.stem f = stem
    · rw [ih hlater hrest]
      split
      · rename_i hstem
        rw [hg hstem, Option.or_self]
      · exact Option.or_none
    · have hnone : latest stem text? (i + 1) rest = none :=
        latest_eq_none fun f hf hstem => absurd ⟨f, hf, hstem⟩ hlater
      have hstem : Source.stem g = stem := by
        obtain ⟨f, hf, hstem⟩ := hex
        rcases List.mem_cons.1 hf with rfl | hf
        · exact hstem
        · exact absurd ⟨f, hf, hstem⟩ hlater
      rw [hnone, Option.none_or, if_pos hstem, hg hstem]

theorem isSome_latest_iff {text? : String → Option String} :
    (latest stem (fun _ => text?) i paths).isSome ↔
      ∃ f ∈ paths, Source.stem f = stem ∧ (text? f).isSome := by
  induction paths generalizing i with
  | nil => simp [latest]
  | cons g rest ih =>
    rw [latest, Option.isSome_or, Bool.or_eq_true, ih, List.exists_mem_cons_iff, or_comm]
    apply or_congr_left
    split
    · rename_i hstem
      simp [hstem]
    · rename_i hstem
      simp [hstem]

theorem Output.text?_congr (o : Output) (h : d'.content? f = d.content? f) :
    o.text? c root ids d' i f = o.text? c root ids d i f := by
  unfold Output.text?
  rw [h]

theorem Built.cons {rest : List String} (hf : Source.Tidy f) (hrest : ∀ g ∈ rest, Source.Tidy g)
    (h : Built c root ids d i [f] d₁) (h' : Built c root ids d₁ (i + 1) rest d') :
    Built c root ids d i (f :: rest) d' := by
  refine ⟨h'.sound, h'.here.trans h.here, ?_, ?_, ?_⟩
  · intro g hg
    rcases List.mem_cons.1 hg with rfl | hg
    · exact h.read g List.mem_cons_self
    · rw [← h.sources g (hrest g hg)]
      exact h'.read g hg
  · intro g hg
    rw [h'.sources g hg, h.sources g hg]
  · intro o g hg
    have hsame : ∀ k ∈ rest, ∀ i, o.text? c root ids d₁ i k = o.text? c root ids d i k :=
      fun k hk i => o.text?_congr (h.sources k (hrest k hk))
    rw [h'.outputs o g hg, h.outputs o g hg, latest, latest, latest, latest_congr hsame,
      Option.none_or, Option.or_assoc]

/-- An output is saved: no source and no other output changes. -/
theorem save_output {o : Output} {content : String} (h : d.Sound) (hf : Source.isPath f = true)
    {fault : SaveFault → BuildFault}
    (hsave : (Work.save (o.path c root f) content fault).perform d = (.ok (), d')) :
    d'.Sound ∧ d'.here = d.here ∧ (∀ g, Source.Tidy g → d'.content? g = d.content? g) ∧
      ∀ (o' : Output) g, Source.isPath g = true → d'.content? (o'.path c root g) =
        if o' = o ∧ Source.stem g = Source.stem f then some content
        else d.content? (o'.path c root g) := by
  obtain ⟨husable, hnames, hw⟩ := Work.save_written h hsave
  refine ⟨hw.sound, hw.here, ?_, ?_⟩
  · intro g hg
    exact hw.content?_other h hg.clean (o.placeOf_ne_source hf hg.isPath).symm
  · intro o' g hg
    split
    · rename_i hsame
      obtain ⟨rfl, hstem⟩ := hsame
      rw [o'.path_congr hstem]
      exact hw.content?_self (o'.exists_clean hf) husable hnames
    · rename_i hother
      apply hw.content?_other h (o'.exists_clean hg)
      intro hplace
      exact hother (o'.placeOf_inj hg hf hplace)

theorem ok_report (c : Config) (root id f content : String) :
    (report c root id f content).ok = (translate content).succeeded := by
  unfold report
  rfl

/-- The parts of building one source. -/
theorem file_ok {r : Report} (hfile : (file c root (ids i) f).perform d = (.ok r, d')) :
    ∃ content d₁, d.content? f = some content ∧ r = report c root (ids i) f content ∧
      ((translate content).succeeded = true ∧
          (Work.save (Output.program.path c root f) ((translate content).code c.options)
            (BuildFault.save f)).perform d = (.ok (), d₁) ∨
        (translate content).succeeded = false ∧ d₁ = d) ∧
      (Work.save (Output.report.path c root f) r.render (BuildFault.save f)).perform d₁ =
        (.ok (), d') := by
  unfold file at hfile
  obtain ⟨content, d₀, hread, hfile⟩ := Work.perform_bind_ok.1 hfile
  rw [Work.perform_read] at hread
  cases hcontent : d.read f with
  | error cause =>
    rw [hcontent] at hread
    cases hread
  | ok content' =>
    rw [hcontent] at hread
    cases hread
    refine ⟨content, ?_⟩
    rw [Disk.content?_eq_some]
    dsimp only at hfile
    split at hfile
    · rename_i hok
      rw [ok_report] at hok
      obtain ⟨u, d₁, hprogram, hfile⟩ := Work.perform_bind_ok.1 hfile
      obtain ⟨v, d₂, hreport, hfile⟩ := Work.perform_bind_ok.1 hfile
      cases hfile
      exact ⟨d₁, hcontent, rfl, .inl ⟨hok, hprogram⟩, hreport⟩
    · rename_i hok
      rw [ok_report, Bool.not_eq_true] at hok
      obtain ⟨v, d₂, hreport, hfile⟩ := Work.perform_bind_ok.1 hfile
      cases hfile
      exact ⟨d, hcontent, rfl, .inr ⟨hok, rfl⟩, hreport⟩

theorem file_built {r : Report} (h : d.Sound) (hf : Source.Tidy f)
    (hfile : (file c root (ids i) f).perform d = (.ok r, d')) :
    Built c root ids d i [f] d' ∧
      ∃ content, d.content? f = some content ∧ r.ok = (translate content).succeeded := by
  obtain ⟨content, d₁, hcontent, rfl, hprogram, hreport⟩ := file_ok hfile
  refine ⟨?_, content, hcontent, ok_report c root (ids i) f content⟩
  -- The program is saved only if there is one; the report follows in any case.
  have hfirst : d₁.Sound ∧ d₁.here = d.here ∧ (∀ g, Source.Tidy g → d₁.content? g = d.content? g) ∧
      ∀ (o : Output) g, Source.isPath g = true → d₁.content? (o.path c root g) =
        (if o = .program ∧ Source.stem g = Source.stem f then program? c content else none).or
          (d.content? (o.path c root g)) := by
    unfold program?
    rcases hprogram with ⟨hok, hprogram⟩ | ⟨hok, rfl⟩
    · obtain ⟨hsound, hhere, hsources, houtputs⟩ := save_output h hf.isPath hprogram
      refine ⟨hsound, hhere, hsources, ?_⟩
      intro o g hg
      rw [houtputs o g hg, if_pos hok]
      split <;> rfl
    · refine ⟨h, rfl, fun _ _ => rfl, ?_⟩
      intro o g hg
      simp [hok]
  obtain ⟨hsound₁, hhere₁, hsources₁, houtputs₁⟩ := hfirst
  obtain ⟨hsound, hhere, hsources, houtputs⟩ := save_output hsound₁ hf.isPath hreport
  refine ⟨hsound, hhere.trans hhere₁, ?_, ?_, ?_⟩
  · intro g hg
    rw [List.mem_singleton.1 hg, hcontent]
    rfl
  · intro g hg
    rw [hsources g hg, hsources₁ g hg]
  · intro o g hg
    rw [houtputs o g hg, houtputs₁ o g hg, latest, latest, Option.none_or]
    by_cases hstem : Source.stem g = Source.stem f
    · cases o <;> simp [hstem, Output.text?, hcontent]
    · simp [hstem, Ne.symm hstem]

theorem files_built {reports : List Report} (h : d.Sound) (hpaths : ∀ f ∈ paths, Source.Tidy f)
    (hfiles : ((paths.zipIdx i).mapM fun (path, i) => file c root (ids i) path).perform d =
      (.ok reports, d')) :
    Built c root ids d i paths d' ∧ ((∀ r ∈ reports, r.ok = true) →
      ∀ f ∈ paths, ∀ content, d.content? f = some content →
        (translate content).succeeded = true) := by
  induction paths generalizing i d reports with
  | nil =>
    cases hfiles
    refine ⟨⟨h, rfl, by simp, fun _ _ => rfl, ?_⟩, by simp⟩
    intro o f hf
    rw [latest, Option.none_or]
  | cons f rest ih =>
    obtain ⟨hf, hrest⟩ := List.forall_mem_cons.1 hpaths
    rw [List.zipIdx_cons, List.mapM_cons] at hfiles
    obtain ⟨r, d₁, hfile, hfiles⟩ := Work.perform_bind_ok.1 hfiles
    obtain ⟨rs, d₂, hfiles, hend⟩ := Work.perform_bind_ok.1 hfiles
    cases hend
    obtain ⟨hbuilt, content, hcontent, hok⟩ := file_built h hf hfile
    obtain ⟨hbuilt', hall⟩ := ih hbuilt.sound hrest hfiles
    refine ⟨hbuilt.cons hf hrest hbuilt', ?_⟩
    intro hoks g hg x hx
    obtain ⟨hr, hrs⟩ := List.forall_mem_cons.1 hoks
    rcases List.mem_cons.1 hg with rfl | hg
    · cases hcontent.symm.trans hx
      rw [← hok, hr]
    · exact hall hrs g hg x ((hbuilt.sources g (hrest g hg)).trans hx)

/-! ## A whole build -/

/-- A build has gone through all sources: it succeeded, or there are sources that do
not translate. -/
def Completed : Except BuildFault Unit → Prop
  | .ok _ => True
  | .error (.untranslated _ _) => True
  | .error _ => False

theorem sources_not_completed (h : sources d c root = .error fault) :
    ¬ Completed (.error fault) := by
  unfold sources at h
  generalize hfounds : List.mapM (m := Except BuildFault) _ (c.sourcePaths root) = founds at h
  cases founds with
  | ok founds => cases h
  | error fault' =>
    cases h
    obtain ⟨dir, -, hdir⟩ := mapM_error hfounds
    split at hdir
    · cases hdir
    · cases hdir
      exact fun h => h

theorem file_not_completed (h : (file c root (ids i) f).perform d = (.error fault, d')) :
    ¬ Completed (.error fault) := by
  have hsave : ∀ (d d' : Disk) path content,
      (Work.save path content (BuildFault.save f)).perform d = (.error fault, d') →
        ¬ Completed (.error fault) := by
    intro d d' path content h
    obtain ⟨cause, rfl⟩ := Work.fault_of_save h
    exact fun h => h
  unfold file at h
  rcases Work.perform_bind_error.1 h with h | ⟨content, d₁, -, h⟩
  · obtain ⟨cause, rfl⟩ := Work.fault_of_read h
    exact fun h => h
  · dsimp only at h
    split at h
    · rcases Work.perform_bind_error.1 h with h | ⟨u, d₂, -, h⟩
      · exact hsave _ _ _ _ h
      · rcases Work.perform_bind_error.1 h with h | ⟨v, d₃, -, h⟩
        · exact hsave _ _ _ _ h
        · cases h
    · rcases Work.perform_bind_error.1 h with h | ⟨v, d₃, -, h⟩
      · exact hsave _ _ _ _ h
      · cases h

theorem files_not_completed {paths : List (String × Nat)}
    (h : (paths.mapM fun (path, i) => file c root (ids i) path).perform d = (.error fault, d')) :
    ¬ Completed (.error fault) := by
  induction paths generalizing d with
  | nil => cases h
  | cons entry rest ih =>
    rw [List.mapM_cons] at h
    rcases Work.perform_bind_error.1 h with h | ⟨r, d₁, -, h⟩
    · exact file_not_completed h
    · rcases Work.perform_bind_error.1 h with h | ⟨rs, d₂, -, h⟩
      · exact ih h
      · cases h

theorem perform_run (c : Config) (root : String) (ids : Nat → String) (d : Disk) :
    (run c root ids).perform d = (sources d c root).casesOn (fun fault => (.error fault, d))
      fun paths => (files c root ids paths >>= fun reports =>
        if (reports.filter (!·.ok)).isEmpty then pure ()
        else throw
          (.untranslated ((reports.filter (!·.ok)).map (·.source)) paths.length)).perform d := by
  unfold run
  rw [Work.perform_bind]
  show (Work.perform _ d) = _
  cases sources d c root with
  | error fault => rfl
  | ok paths => rfl

/-- A build that goes through all sources has built them one after the other. -/
theorem run_completed {r : Except BuildFault Unit} (hrun : (run c root ids).perform d = (r, d'))
    (hr : Completed r) :
    ∃ paths reports, sources d c root = .ok paths ∧
      (files c root ids paths).perform d = (.ok reports, d') ∧
      (r = .ok () → ∀ report ∈ reports, report.ok = true) := by
  rw [perform_run] at hrun
  cases hsources : sources d c root with
  | error fault =>
    rw [hsources] at hrun
    cases hrun
    exact absurd hr (sources_not_completed hsources)
  | ok paths =>
    rw [hsources] at hrun
    refine ⟨paths, ?_⟩
    cases r with
    | error fault =>
      rcases Work.perform_bind_error.1 hrun with h | ⟨reports, d₁, hfiles, hend⟩
      · exact absurd hr (files_not_completed h)
      · split at hend
        · cases hend
        · cases hend
          exact ⟨reports, rfl, hfiles, nofun⟩
    | ok u =>
      obtain ⟨reports, d₁, hfiles, hend⟩ := Work.perform_bind_ok.1 hrun
      split at hend
      · rename_i hempty
        cases hend
        refine ⟨reports, rfl, hfiles, fun _ => ?_⟩
        intro report hreport
        rw [List.isEmpty_iff, List.filter_eq_nil_iff] at hempty
        simpa using hempty report hreport
      · cases hend

theorem run_built {r : Except BuildFault Unit} (h : d.Sound)
    (hrun : (run c root ids).perform d = (r, d')) (hr : Completed r) :
    ∃ paths, sources d c root = .ok paths ∧ (∀ f ∈ paths, Source.Tidy f) ∧
      Built c root ids d 0 paths d' ∧ (r = .ok () →
        ∀ f ∈ paths, ∀ content, d.content? f = some content →
          (translate content).succeeded = true) := by
  obtain ⟨paths, reports, hsources, hfiles, hok⟩ := run_completed hrun hr
  have htidy : ∀ f ∈ paths, Source.Tidy f := fun f hf => tidy_of_mem_sources hsources hf
  obtain ⟨hbuilt, hall⟩ := files_built (i := 0) h htidy hfiles
  exact ⟨paths, hsources, htidy, hbuilt, fun hr => hall (hok hr)⟩

/-- A source can be read before and after a build, with the same content. -/
theorem Built.exists_content (h : Built c root ids d i paths d') (hmem : f ∈ paths)
    (hf : Source.Tidy f) : ∃ content, d.read f = .ok content ∧ d'.read f = .ok content := by
  obtain ⟨content, hcontent⟩ := Option.isSome_iff_exists.1 (h.read f hmem)
  refine ⟨content, Disk.content?_eq_some.1 hcontent, Disk.content?_eq_some.1 ?_⟩
  rw [h.sources f hf, hcontent]

/-! ## The last source with a base name -/

/-- No source behind the `i`-th one has its base name. -/
def IsLast (paths : List String) (i : Nat) (f : String) : Prop :=
  paths[i]? = some f ∧ ∀ j g, i < j → paths[j]? = some g → Source.stem g ≠ Source.stem f

theorem latest_of_isLast {text? : Nat → String → Option String} {k : Nat} {x : String}
    (h : IsLast paths i f) (hx : text? (k + i) f = some x) :
    latest (Source.stem f) text? k paths = some x := by
  induction paths generalizing i k with
  | nil => cases h.1
  | cons g rest ih =>
    rw [latest]
    cases i with
    | zero =>
      cases h.1
      have hnone : latest (Source.stem f) text? (k + 1) rest = none := by
        apply latest_eq_none
        intro g hg hstem
        obtain ⟨j, hj⟩ := List.mem_iff_getElem?.1 hg
        exact absurd hstem (h.2 (j + 1) g (Nat.succ_pos j) hj)
      rw [hnone, Option.none_or, if_pos rfl]
      exact hx
    | succ i =>
      have hrest : IsLast rest i f := by
        refine ⟨h.1, ?_⟩
        intro j g' hj
        exact h.2 (j + 1) g' (Nat.succ_lt_succ hj)
      rw [ih hrest (by rwa [Nat.succ_add_eq_add_succ]), Option.some_or]

theorem exists_isLast (hf : paths[i]? = some f) :
    ∃ j g, i ≤ j ∧ IsLast paths j g ∧ Source.stem g = Source.stem f := by
  induction paths generalizing i f with
  | nil => cases hf
  | cons k rest ih =>
    have hlater : ∀ i f, rest[i]? = some f →
        ∃ j g, i + 1 ≤ j ∧ IsLast (k :: rest) j g ∧ Source.stem g = Source.stem f := by
      intro i f hf
      obtain ⟨j, g, hle, hlast, hstem⟩ := ih hf
      refine ⟨j + 1, g, by omega, ⟨hlast.1, ?_⟩, hstem⟩
      intro m l hm hl
      cases m with
      | zero => omega
      | succ m => exact hlast.2 m l (by omega) hl
    cases i with
    | succ i => exact hlater i f hf
    | zero =>
      cases hf
      by_cases hex : ∃ (m : Nat) (l : String), rest[m]? = some l ∧ Source.stem l = Source.stem k
      · obtain ⟨m, l, hl, hsame⟩ := hex
        obtain ⟨j, g, -, hlast, hstem⟩ := hlater m l hl
        exact ⟨j, g, Nat.zero_le j, hlast, hstem.trans hsame⟩
      · refine ⟨0, k, Nat.le_refl 0, ⟨rfl, ?_⟩, rfl⟩
        intro m l hm hl hsame
        cases m with
        | zero => omega
        | succ m => exact hex ⟨m, l, hl, hsame⟩

/-- After a build that succeeds, every source has been translated, and the outputs that have the
base name of a source are those of the last source with that base name. -/
theorem outputs_of_run (h : d.Sound) (hrun : (run c root ids).perform d = (.ok (), d')) :
    ∃ paths, sources d c root = .ok paths ∧
      (∀ f ∈ paths, ∃ content, d.read f = .ok content ∧ d'.read f = .ok content ∧
        (translate content).succeeded = true) ∧
      (∀ i f content, IsLast paths i f → d.read f = .ok content →
        d'.read (programPath c root f) = .ok ((translate content).code c.options) ∧
        d'.read (reportPath c root f) = .ok (report c root (ids i) f content).render) ∧
      ∀ i f, paths[i]? = some f → ∃ j g, i ≤ j ∧ IsLast paths j g ∧
        programPath c root f = programPath c root g ∧
        reportPath c root f = reportPath c root g := by
  obtain ⟨paths, hsources, htidy, hbuilt, hok⟩ := run_built h hrun trivial
  refine ⟨paths, hsources, ?_, ?_, ?_⟩
  · intro f hf
    obtain ⟨content, hcontent, hkept⟩ := hbuilt.exists_content hf (htidy f hf)
    exact ⟨content, hcontent, hkept, hok rfl f hf content (Disk.content?_eq_some.2 hcontent)⟩
  · intro i f content hlast hcontent
    have hmem : f ∈ paths := List.mem_of_getElem? hlast.1
    have hsome := Disk.content?_eq_some.2 hcontent
    have hpath : ∀ (o : Output) x, o.text? c root ids d i f = some x →
        d'.read (o.path c root f) = .ok x := by
      intro o x hx
      rw [← Disk.content?_eq_some, hbuilt.outputs o f (htidy f hmem).isPath,
        latest_of_isLast hlast (by rwa [Nat.zero_add]), Option.some_or]
    constructor
    · apply hpath .program
      simp [Output.text?, hsome, program?, hok rfl f hmem content hsome]
    · apply hpath .report
      simp [Output.text?, hsome]
  · intro i f hf
    obtain ⟨j, g, hle, hlast, hstem⟩ := exists_isLast hf
    exact ⟨j, g, hle, hlast, Output.program.path_congr hstem.symm,
      Output.report.path_congr hstem.symm⟩

/-- A project with one source: both outputs are there, and the source is as it was. -/
theorem outputs_of_run_sample :
    ∃ (content : String) (d d' : Disk),
      (run (.default "p") "." fun _ => "0").perform d = (.ok (), d') ∧
      d'.read "src/a.polite" = .ok content ∧
      d'.read "generated/cs/a.cs" = .ok ((translate content).code (Config.default "p").options) ∧
      d'.read "generated/reports/a.yaml" =
        .ok (report (.default "p") "." "0" "src/a.polite" content).render := by
  let content := "please define function void main() \x7b\n\x7d"
  let d : Disk := ⟨⟨[(["src"], .folder), (["src", "a.polite"], .file content)]⟩, []⟩
  obtain ⟨hsound, hok, hfound, hread, hprogram, hreport⟩ : d.Sound ∧
      ((run (.default "p") "." fun _ => "0").perform d).1 = .ok () ∧
      sources d (.default "p") "." = .ok ["src/a.polite"] ∧ d.read "src/a.polite" = .ok content ∧
      programPath (.default "p") "." "src/a.polite" = "generated/cs/a.cs" ∧
      reportPath (.default "p") "." "src/a.polite" = "generated/reports/a.yaml" := by
    decide +kernel
  have hrun := Work.perform_eq_of_fst hok
  obtain ⟨paths, hpaths, hkept, hlast, -⟩ := outputs_of_run hsound hrun
  cases hfound.symm.trans hpaths
  obtain ⟨content', hcontent, hcontent', -⟩ := hkept "src/a.polite" List.mem_cons_self
  cases hread.symm.trans hcontent
  have honly : IsLast ["src/a.polite"] 0 "src/a.polite" := by
    refine ⟨rfl, ?_⟩
    intro j g hj hg
    cases j with
    | zero => omega
    | succ j => cases hg
  have houtputs := hlast 0 "src/a.polite" content honly hread
  rw [hprogram, hreport] at houtputs
  exact ⟨content, d, _, hrun, hcontent', houtputs⟩

/-- Two sources with one base name in two directories: the build succeeds, and the program of the
first one is lost. -/
theorem outputs_overwritten :
    ∃ (content : String) (d d' : Disk), d.Sound ∧
      (run (.default "p") "." fun _ => "0").perform d = (.ok (), d') ∧
      sources d (.default "p") "." = .ok ["src/a.polite", "src/b/a.polite"] ∧
      d.read "src/a.polite" = .ok content ∧
      d'.read (programPath (.default "p") "." "src/a.polite") ≠
        .ok ((translate content).code (Config.default "p").options) := by
  let content := "please define function void main() \x7b\n\x7d"
  let d : Disk :=
    ⟨⟨[(["src"], .folder), (["src", "a.polite"], .file content), (["src", "b"], .folder),
    (["src", "b", "a.polite"],
      .file "please define function void main() \x7b\nthank you for printing 2\n\x7d")]⟩, []⟩
  obtain ⟨hsound, hok, hfound, hread, hother⟩ : d.Sound ∧
      ((run (.default "p") "." fun _ => "0").perform d).1 = .ok () ∧
      sources d (.default "p") "." = .ok ["src/a.polite", "src/b/a.polite"] ∧
      d.read "src/a.polite" = .ok content ∧
      ((run (.default "p") "." fun _ => "0").perform d).2.read
          (programPath (.default "p") "." "src/a.polite") ≠
        .ok ((translate content).code (Config.default "p").options) := by
    decide +kernel
  exact ⟨content, d, _, hsound, Work.perform_eq_of_fst hok, hfound, hread, hother⟩

end Build

end Courtesy
