import Courtesy.Proofs.Registration

/-!
# A watcher at work

Changes to the tree and the handling of events take turns in any order. A change becomes an event at
once if it happens directly in a registered directory, and the event waits until the watcher takes
it up (`Watching.act?`). What the watcher reads by then is the disk of that moment, so it matters
which directories it still awaits (`Watching.Awaits`).

`Watching.Invariant` holds in every state that is reached (`Watching.invariant_run`). A directory
below a watched one is registered unless the arrival of it, or of one above it, is still pending,
and what is recorded under the path of an event is what the file holds, or an event for it is
pending.
-/

namespace Courtesy

/-- The directories at a place that one of the given paths leads to, and all below them that are not
in an output directory. -/
def Watched (d : Disk) (dirs : List String) (q : Place) : Prop :=
  ∃ dir ∈ dirs, ∃ p rel, d.lookup dir = .ok (p, .folder) ∧ q = p ++ rel ∧ Source.outputName ∉ rel

/-- A watcher, the disk that it watches, the events that it has not handled yet, and the events that
have asked for a build so far. -/
structure Watching where
  watcher : Watcher
  disk : Disk
  pending : List String := []
  builds : List String := []
  deriving DecidableEq, Repr

namespace Watching

inductive Action where
  | change (c : Change)
  | handle
  deriving DecidableEq, Repr

/-- The state when everything that stands in the given directories has been taken into account. -/
def start (d : Disk) (dirs : List String) : Watching :=
  { watcher := (Watcher.start d dirs).1, disk := d }

/-- A change can happen if it adds to the tree and the path by which the watcher knows the place is
not too long to be looked up. -/
def Allows (s : Watching) (c : Change) : Prop :=
  c.Adds s.disk.tree ∧ ∀ path ∈ s.watcher.pathOf? c.place, path.utf8ByteSize ≤ Disk.maxPath

instance (s : Watching) (c : Change) : Decidable (s.Allows c) :=
  inferInstanceAs (Decidable (_ ∧ ∀ path ∈ s.watcher.pathOf? c.place, _))

/-- A change happens, and the event of it joins the others. -/
def change (s : Watching) (c : Change) : Watching :=
  let (w, event) := s.watcher.observe s.disk.tree c
  { s with
    watcher := w, disk := { s.disk with tree := c.apply s.disk.tree }
    pending := s.pending ++ event.toList }

/-- The first event is handled; the others remain. -/
def handle (s : Watching) (path : String) (rest : List String) : Watching :=
  let (w, due) := s.watcher.handle s.disk path
  { s with watcher := w, pending := rest, builds := if due then s.builds ++ [path] else s.builds }

def act? (s : Watching) : Action → Option Watching
  | .change c => if s.Allows c then some (s.change c) else none
  | .handle =>
    match s.pending with
    | [] => none
    | path :: rest => some (s.handle path rest)

/-- The state after some actions, if they can be taken one after the other. -/
def run? (s : Watching) (actions : List Action) : Option Watching := actions.foldlM act? s

/-- The arrival of the directory `q`, or of one above it, has not been handled yet. -/
def Awaits (s : Watching) (q : Place) : Prop :=
  ∃ y ∈ s.pending, ∃ a, s.disk.lookup y = .ok (a, .folder) ∧ a <+: q

/-! ## What holds in every state -/

structure Invariant (d : Disk) (dirs : List String) (s : Watching) : Prop where
  sound : s.disk.tree.Sound
  here : s.disk.tree.get? s.disk.here = some .folder
  valid : ∀ r ∈ s.watcher.registered, r.Valid s.disk
  watched : ∀ q, s.watcher.Registered q → Watched d dirs q
  roots : ∀ dir ∈ dirs, ∀ p, d.lookup dir = .ok (p, .folder) → s.watcher.Registered p
  known : ∀ y ∈ s.pending, ∃ q e, s.watcher.pathOf? q = some y ∧ s.disk.lookup y = .ok (q, e)
  /-- The arrival of a directory is announced once. -/
  once : s.pending.Pairwise fun y z =>
    ∀ a, s.disk.lookup y = .ok (a, .folder) → s.disk.lookup z ≠ .ok (a, .folder)
  /-- Nothing is registered in a directory whose arrival is pending. -/
  unregistered : ∀ q, s.watcher.Registered q → ¬ s.Awaits q
  covered : ∀ q, Watched d dirs q → s.disk.tree.get? q = some .folder →
    s.watcher.Registered q ∨ s.Awaits q
  recorded : ∀ y hex, s.watcher.tracker.recorded? y = some hex → Source.isPath y = true ∧
    ∃ q content, s.disk.lookup y = .ok (q, .file content) ∧
      (s.watcher.pathOf? q = some y → y ∈ s.pending ∨ hex = fingerprint content) ∧
      (s.watcher.Registered q.dropLast ∨ ¬ s.Awaits q.dropLast)

variable {s s' : Watching} {d : Disk} {dirs : List String} {c : Change} {p q : Place}
  {y path : String}
  {rest : List String}

theorem run?_cons {a : Action} {actions : List Action} :
    s.run? (a :: actions) = some s' ↔ ∃ u, s.act? a = some u ∧ u.run? actions = some s' := by
  unfold run?
  rw [List.foldlM_cons, Option.bind_eq_bind, Option.bind_eq_some_iff]

theorem act?_change : s.act? (.change c) = some s' ↔ s.Allows c ∧ s.change c = s' := by
  rw [act?]
  split
  · rename_i h
    simp [h]
  · rename_i h
    simp [h]

theorem act?_handle :
    s.act? .handle = some s' ↔ ∃ path rest, s.pending = path :: rest ∧ s.handle path rest = s' := by
  rw [act?]
  split
  · rename_i h
    simp [h]
  · rename_i path rest h
    simp [h]

theorem ne_root_of_file {content : String} (h : s.disk.tree.get? q = some (.file content)) :
    q ≠ [] := by
  rintro rfl
  cases h

/-! ## A change -/

section change

variable (hi : s.Invariant d dirs) (h : s.Allows c)
include hi h

/-- An adding change ends nothing that is registered. -/
theorem observe_eq : s.watcher.observe s.disk.tree c = (s.watcher, s.watcher.pathOf? c.place) := by
  cases c with
  | putFile p content => rfl
  | makeFolder p =>
    have hnone : s.disk.tree.get? p = none := h.1.2
    simp [Watcher.observe, Change.appears?, Change.ends?, Change.place, hnone]
  | remove p => exact h.1.elim
  | putTree p files =>
    have hnone : s.disk.tree.get? p = none := h.1.2.1
    have hforget : s.watcher.forget p = s.watcher := by
      unfold Watcher.forget
      rw [List.filter_eq_self.2]
      intro r hr
      rw [Bool.not_eq_true', Bool.eq_false_iff, Ne, List.isPrefixOf_iff_prefix]
      intro hle
      have hfolder := (hi.valid r hr).folder
      rw [hi.sound.get?_below hnone hle] at hfolder
      cases hfolder
    simp [Watcher.observe, Change.appears?, Change.ends?, Change.place, hforget]

theorem change_eq : s.change c =
    { s with
      disk := { s.disk with tree := c.apply s.disk.tree }
      pending := s.pending ++ (s.watcher.pathOf? c.place).toList } := by
  unfold change
  rw [observe_eq hi h]

theorem watcher_change : (s.change c).watcher = s.watcher := by rw [change_eq hi h]

theorem disk_change : (s.change c).disk = { s.disk with tree := c.apply s.disk.tree } := by
  rw [change_eq hi h]

theorem builds_change : (s.change c).builds = s.builds := by rw [change_eq hi h]

theorem mem_pending_change :
    y ∈ (s.change c).pending ↔ y ∈ s.pending ∨ s.watcher.pathOf? c.place = some y := by
  rw [change_eq hi h, List.mem_append, Option.mem_toList]

theorem valid_change : ∀ r ∈ s.watcher.registered, r.Valid (s.change c).disk := by
  have hgrown := h.1.grown hi.sound
  intro r hr
  obtain ⟨hfolder, hleads, hne, hnul⟩ := hi.valid r hr
  rw [disk_change hi h]
  exact ⟨hgrown.folder _ hfolder, hleads.grown hgrown, hne, hnul⟩

/-- The event of a change names what the change leaves at its place. -/
theorem lookup_event (hy : s.watcher.pathOf? c.place = some y) {e : Entry}
    (he : (c.apply s.disk.tree).get? c.place = some e) :
    (s.change c).disk.lookup y = .ok (c.place, e) := by
  have hvalid := valid_change hi h
  rw [disk_change hi h] at hvalid ⊢
  exact Watcher.lookup_pathOf? hvalid hy (h.1.sound hi.sound) he (h.2 y hy)

/-- An earlier event names the same entry as before. -/
theorem lookup_pending {e : Entry} (hy : s.disk.lookup y = .ok (q, e)) :
    (s.change c).disk.lookup y = .ok (q, e) ∨
      q = c.place ∧ (∃ old, e = .file old) ∧
        ∃ content, (s.change c).disk.lookup y = .ok (q, .file content) := by
  have hgrown := h.1.grown hi.sound
  obtain ⟨-, -, hget, -⟩ := Disk.lookup_eq_ok_iff.1 hy
  rw [disk_change hi h]
  cases e with
  | folder => exact .inl (Disk.lookup_folder_grown hgrown hy)
  | file old =>
    rcases Decidable.em (q = c.place) with hq | hne
    · obtain ⟨content, hc⟩ := hgrown.file q old hget
      exact .inr ⟨hq, ⟨old, rfl⟩, content, Disk.lookup_file_grown hgrown hy hc⟩
    · exact .inl (Disk.lookup_file_grown hgrown hy (h.1.get?_kept hi.sound hget hne))

/-- An earlier event announces an arrival now only if it did so before. -/
theorem lookup_folder_before (hy : y ∈ s.pending)
    (ha : (s.change c).disk.lookup y = .ok (q, .folder)) : s.disk.lookup y = .ok (q, .folder) := by
  obtain ⟨q', e, -, hlookup⟩ := hi.known y hy
  rcases lookup_pending hi h hlookup with hnow | ⟨-, -, content, hnow⟩
  · cases ha.symm.trans hnow
    exact hlookup
  · cases ha.symm.trans hnow

theorem awaits_change : (s.change c).Awaits q ↔ s.Awaits q ∨ c.place <+: q ∧
    s.disk.tree.get? c.place = none ∧ (c.apply s.disk.tree).get? c.place = some .folder ∧
      (s.watcher.pathOf? c.place).isSome := by
  constructor
  · rintro ⟨y, hy, a, ha, haq⟩
    rcases (mem_pending_change hi h).1 hy with hy | hy
    · exact .inl ⟨y, hy, a, lookup_folder_before hi h hy ha, haq⟩
    · rcases h.1.get?_place hi.sound with ⟨-, content, hfile⟩ | ⟨hnone, hfolder⟩
      · cases ha.symm.trans (lookup_event hi h hy hfile)
      · cases ha.symm.trans (lookup_event hi h hy hfolder)
        exact .inr ⟨haq, hnone, hfolder, hy ▸ rfl⟩
  · rintro (⟨y, hy, a, ha, haq⟩ | ⟨hq, -, hfolder, hsome⟩)
    · refine ⟨y, (mem_pending_change hi h).2 (.inl hy), a, ?_, haq⟩
      rcases lookup_pending hi h ha with ha | ⟨-, ⟨old, hold⟩, -⟩
      · exact ha
      · cases hold
    · obtain ⟨y, hy⟩ := Option.isSome_iff_exists.1 hsome
      exact ⟨y, (mem_pending_change hi h).2 (.inr hy), c.place, lookup_event hi h hy hfolder, hq⟩

theorem known_change (y : String) (hy : y ∈ (s.change c).pending) :
    ∃ q e, (s.change c).watcher.pathOf? q = some y ∧ (s.change c).disk.lookup y = .ok (q, e) := by
  rw [watcher_change hi h]
  rcases (mem_pending_change hi h).1 hy with hy | hy
  · obtain ⟨q, e, hq, hlookup⟩ := hi.known y hy
    rcases lookup_pending hi h hlookup with hnow | ⟨-, -, content, hnow⟩
    · exact ⟨q, e, hq, hnow⟩
    · exact ⟨q, _, hq, hnow⟩
  · rcases h.1.get?_place hi.sound with ⟨-, content, hfile⟩ | ⟨-, hfolder⟩
    · exact ⟨c.place, _, hy, lookup_event hi h hy hfile⟩
    · exact ⟨c.place, _, hy, lookup_event hi h hy hfolder⟩

theorem once_change : (s.change c).pending.Pairwise fun y z =>
    ∀ a, (s.change c).disk.lookup y = .ok (a, .folder) →
      (s.change c).disk.lookup z ≠ .ok (a, .folder) := by
  have hpending : (s.change c).pending = s.pending ++ (s.watcher.pathOf? c.place).toList := by
    rw [change_eq hi h]
  rw [hpending, List.pairwise_append]
  refine ⟨?_, ?_, ?_⟩
  · apply hi.once.imp_of_mem
    intro y z hy hz hyz a ha ha'
    exact hyz a (lookup_folder_before hi h hy ha) (lookup_folder_before hi h hz ha')
  · cases s.watcher.pathOf? c.place with
    | none => exact .nil
    | some path => exact List.pairwise_singleton _ _
  · -- An earlier event announces a directory that was there, the new one something that was not.
    intro y hy z hz a ha ha'
    rw [Option.mem_toList] at hz
    obtain ⟨-, -, hfolder, -⟩ := Disk.lookup_eq_ok_iff.1 (lookup_folder_before hi h hy ha)
    rcases h.1.get?_place hi.sound with ⟨-, content, hfile⟩ | ⟨hnone, harrived⟩
    · cases ha'.symm.trans (lookup_event hi h hz hfile)
    · cases ha'.symm.trans (lookup_event hi h hz harrived)
      rw [hnone] at hfolder
      cases hfolder

theorem unregistered_change (q : Place) (hq : (s.change c).watcher.Registered q) :
    ¬ (s.change c).Awaits q := by
  rw [watcher_change hi h] at hq
  rw [awaits_change hi h]
  rintro (hawaits | ⟨hle, hnone, -, -⟩)
  · exact hi.unregistered q hq hawaits
  · obtain ⟨r, hr, rfl⟩ := hq
    have hfolder := (hi.valid r hr).folder
    rw [hi.sound.get?_below hnone hle] at hfolder
    cases hfolder

/-- A watched place below something that was not there is below a watched place that was. -/
theorem watched_above (hq : Watched d dirs q) (hle : c.place <+: q)
    (hnone : s.disk.tree.get? c.place = none) : Watched d dirs c.place.dropLast := by
  obtain ⟨dir, hdir, p, rel, hp, rfl, hrel⟩ := hq
  obtain ⟨r, hr, rfl⟩ := hi.roots dir hdir p hp
  have hfolder := (hi.valid r hr).folder
  have hne : r.place ≠ c.place := by
    rintro heq
    rw [heq, hnone] at hfolder
    cases hfolder
  rcases List.prefix_or_prefix_of_prefix hle (List.prefix_append r.place rel) with hcp | hpc
  · rw [hi.sound.get?_below hnone hcp] at hfolder
    cases hfolder
  · obtain ⟨rel', hrel'⟩ := Place.prefix_dropLast h.1.hasRoom.1 hpc hne
    refine ⟨dir, hdir, r.place, rel', hp, hrel'.symm, ?_⟩
    have hle' : r.place ++ rel' <+: r.place ++ rel := hrel' ▸ (List.dropLast_prefix _).trans hle
    exact fun hmem => hrel ((List.prefix_append_right_inj r.place).1 hle' |>.subset hmem)

theorem covered_change (q : Place) (hq : Watched d dirs q)
    (hfolder : (s.change c).disk.tree.get? q = some .folder) :
    (s.change c).watcher.Registered q ∨ (s.change c).Awaits q := by
  rw [watcher_change hi h, awaits_change hi h]
  rw [disk_change hi h] at hfolder
  by_cases hold : s.disk.tree.get? q = some .folder
  · exact (hi.covered q hq hold).imp_right .inl
  · -- The directory is new, so it has come with one whose arrival is announced if it can be.
    obtain ⟨hle, hnone, harrived⟩ := h.1.of_new_folder hi.sound hold hfolder
    have hroom := h.1.hasRoom
    rcases hi.covered _ (watched_above hi h hq hle hnone) hroom.2.1 with hreg | ⟨y, hy, a, ha, hap⟩
    · exact .inr (.inr ⟨hle, hnone, harrived, (Watcher.isSome_pathOf?_iff hroom.1).2 hreg⟩)
    · exact .inr (.inl ⟨y, hy, a, ha, (hap.trans (List.dropLast_prefix _)).trans hle⟩)

theorem recorded_change (y hex : String)
    (hy : (s.change c).watcher.tracker.recorded? y = some hex) : Source.isPath y = true ∧
      ∃ q content, (s.change c).disk.lookup y = .ok (q, .file content) ∧
        ((s.change c).watcher.pathOf? q = some y →
          y ∈ (s.change c).pending ∨ hex = fingerprint content) ∧
        ((s.change c).watcher.Registered q.dropLast ∨ ¬ (s.change c).Awaits q.dropLast) := by
  rw [watcher_change hi h] at hy ⊢
  obtain ⟨hpath, q, content, hlookup, hknown, hawaits⟩ := hi.recorded y hex hy
  obtain ⟨-, -, hget, -⟩ := Disk.lookup_eq_ok_iff.1 hlookup
  have hthere : s.watcher.Registered q.dropLast ∨ ¬ (s.change c).Awaits q.dropLast := by
    apply hawaits.imp_right
    intro hawaits
    rw [awaits_change hi h]
    rintro (hold | ⟨hle, hnone, -, -⟩)
    · exact hawaits hold
    · rw [hi.sound.get?_below hnone (hle.trans (List.dropLast_prefix q))] at hget
      cases hget
  refine ⟨hpath, ?_⟩
  rcases lookup_pending hi h hlookup with hnow | ⟨hq, -, content', hnow⟩
  · refine ⟨q, content, hnow, ?_, hthere⟩
    intro hqy
    exact (hknown hqy).imp_left fun hmem => (mem_pending_change hi h).2 (.inl hmem)
  · refine ⟨q, content', hnow, ?_, hthere⟩
    intro hqy
    exact .inl ((mem_pending_change hi h).2 (.inr (hq ▸ hqy)))

theorem invariant_change : (s.change c).Invariant d dirs where
  sound := by
    rw [disk_change hi h]
    exact h.1.sound hi.sound
  here := by
    rw [disk_change hi h]
    exact (h.1.grown hi.sound).folder _ hi.here
  valid := by
    rw [watcher_change hi h]
    exact valid_change hi h
  watched := by
    rw [watcher_change hi h]
    exact hi.watched
  roots := by
    rw [watcher_change hi h]
    exact hi.roots
  known := known_change hi h
  once := once_change hi h
  unregistered := unregistered_change hi h
  covered := covered_change hi h
  recorded := recorded_change hi h

end change

/-! ## An event -/

section handle

variable (hi : s.Invariant d dirs) (hpending : s.pending = path :: rest)

/-- What handling the first event comes to: nothing, a directory taken into account, or a source
looked at. -/
theorem handle_cases {e : Entry} (hpath : s.disk.lookup path = .ok (p, e)) :
    s.handle path rest = { s with pending := rest } ∧
        (e = .folder ∧ Path.base path = Source.outputName ∨
          e ≠ .folder ∧ Source.isPath path = false) ∨
      (e = .folder ∧ Path.base path ≠ Source.outputName ∧
        s.handle path rest =
          { s with watcher := s.watcher.addTree s.disk path, pending := rest }) ∨
      ∃ content, e = .file content ∧ Source.isPath path = true ∧
        s.handle path rest =
          { s with
            watcher := { s.watcher with tracker := (s.watcher.tracker.check s.disk path).1 }
            pending := rest
            builds :=
              if (s.watcher.tracker.check s.disk path).2 then s.builds ++ [path]
              else s.builds } := by
  unfold handle Watcher.handle
  cases e with
  | folder =>
    rw [if_pos (Disk.isFolder_iff.2 ⟨p, hpath⟩)]
    by_cases hbase : Path.base path = Source.outputName
    · exact .inl ⟨by simp [hbase], .inl ⟨rfl, hbase⟩⟩
    · exact .inr (.inl ⟨rfl, hbase, by simp [hbase]⟩)
  | file content =>
    have hfolder : ¬ s.disk.isFolder path = true := by
      rw [Disk.isFolder_iff]
      rintro ⟨q, hq⟩
      cases hpath.symm.trans hq
    rw [if_neg hfolder]
    cases hsource : Source.isPath path with
    | false => exact .inl ⟨by simp, .inr ⟨nofun, rfl⟩⟩
    | true => exact .inr (.inr ⟨content, rfl, rfl, by simp⟩)

include hi hpending

/-- A watched directory below one whose arrival is pending is none of the output
directories there. -/
theorem watched_arrival (hq : Watched d dirs q) (hp : s.disk.lookup path = .ok (p, .folder))
    (hle : p <+: q) :
    ∃ rel, q = p ++ rel ∧ Source.outputName ∉ rel ∧
      ∀ name ∈ p.getLast?, name ≠ Source.outputName := by
  obtain ⟨dir, hdir, root, rel, hroot, rfl, hrel⟩ := hq
  have hreg := hi.roots dir hdir root hroot
  have hnot : ¬ p <+: root := by
    intro hle
    exact hi.unregistered root hreg ⟨path, hpending ▸ List.mem_cons_self, p, hp, hle⟩
  obtain ⟨behind, hbehind⟩ := hle
  rcases List.append_eq_append_iff.1 hbehind with ⟨more, rfl, rfl⟩ | ⟨more, rfl, rfl⟩
  · exact absurd (List.prefix_append p more) hnot
  · refine ⟨behind, by rw [List.append_assoc],
      fun hmem => hrel (List.mem_append_right more hmem), ?_⟩
    have hne : more ≠ [] := by
      rintro rfl
      exact hnot (by simp)
    rintro name hname rfl
    rw [Option.mem_def, List.getLast?_append_of_ne_nil _ hne] at hname
    exact hrel (List.mem_append_left behind (List.mem_of_getLast? hname))

omit hi in
theorem awaits_iff_rest : s.Awaits q ↔ (∃ a, s.disk.lookup path = .ok (a, .folder) ∧ a <+: q) ∨
    ∃ y ∈ rest, ∃ a, s.disk.lookup y = .ok (a, .folder) ∧ a <+: q := by
  unfold Awaits
  rw [hpending]
  simp only [List.mem_cons, exists_eq_or_imp]

omit hi in
theorem awaits_of_rest (h : ∃ y ∈ rest, ∃ a, s.disk.lookup y = .ok (a, .folder) ∧ a <+: q) :
    s.Awaits q := (awaits_iff_rest hpending).2 (.inr h)

theorem once_cons :
    (∀ y ∈ rest, ∀ a, s.disk.lookup path = .ok (a, .folder) → s.disk.lookup y ≠ .ok (a, .folder)) ∧
      rest.Pairwise fun y z =>
        ∀ a, s.disk.lookup y = .ok (a, .folder) → s.disk.lookup z ≠ .ok (a, .folder) := by
  have honce := hi.once
  rwa [hpending, List.pairwise_cons] at honce

omit hi hpending in
/-- Something appeared in a registered directory. -/
theorem registered_parent (hp : s.watcher.pathOf? p = some y) :
    p ≠ [] ∧ s.watcher.Registered p.dropLast := by
  have hne : p ≠ [] := by
    rintro rfl
    cases hp
  exact ⟨hne, (Watcher.isSome_pathOf?_iff hne).1 (hp ▸ rfl)⟩

/-- The first event goes, nothing new is registered, and it is not missed. -/
theorem invariant_quiet {w : Watcher} {builds : List String}
    (hreg : w.registered = s.watcher.registered)
    (hskip : ∀ q a, Watched d dirs q → s.disk.lookup path = .ok (a, .folder) → ¬ a <+: q)
    (hrec : ∀ y hex, w.tracker.recorded? y = some hex →
      s.watcher.tracker.recorded? y = some hex ∧ y ≠ path ∨
      Source.isPath y = true ∧ ∃ q content, s.disk.lookup y = .ok (q, .file content) ∧
        hex = fingerprint content ∧ s.watcher.Registered q.dropLast) :
    Invariant d dirs { s with watcher := w, pending := rest, builds := builds } := by
  obtain ⟨-, honce⟩ := once_cons hi hpending
  have hpath : ∀ q, w.pathOf? q = s.watcher.pathOf? q := by
    intro q
    unfold Watcher.pathOf?
    rw [hreg]
  have hregistered : ∀ q, w.Registered q ↔ s.watcher.Registered q := by
    intro q
    unfold Watcher.Registered
    rw [hreg]
  refine ⟨hi.sound, hi.here, hreg ▸ hi.valid, ?_, ?_, ?_, honce, ?_, ?_, ?_⟩
  · exact fun q hq => hi.watched q ((hregistered q).1 hq)
  · exact fun dir hdir p hp => (hregistered p).2 (hi.roots dir hdir p hp)
  · intro y hy
    obtain ⟨q, e, hq, hlookup⟩ := hi.known y (hpending ▸ List.mem_cons_of_mem path hy)
    exact ⟨q, e, (hpath q).trans hq, hlookup⟩
  · intro q hq hawaits
    exact hi.unregistered q ((hregistered q).1 hq) (awaits_of_rest hpending hawaits)
  · intro q hq hfolder
    rcases hi.covered q hq hfolder with hreg' | hawaits
    · exact .inl ((hregistered q).2 hreg')
    · rcases (awaits_iff_rest hpending).1 hawaits with ⟨a, ha, hle⟩ | hrest
      · exact absurd hle (hskip q a hq ha)
      · exact .inr hrest
  · intro y hex hy
    rcases hrec y hex hy with ⟨hy, hne⟩ | ⟨hsource, q, content, hlookup, hhex, hdir⟩
    · obtain ⟨hsource, q, content, hlookup, hknown, hawaits⟩ := hi.recorded y hex hy
      refine ⟨hsource, q, content, hlookup, ?_, ?_⟩
      · intro hqy
        apply (hknown ((hpath q).symm.trans hqy)).imp_left
        intro hmem
        rw [hpending] at hmem
        exact (List.mem_cons.1 hmem).resolve_left hne
      · exact hawaits.imp (hregistered _).2 fun hnot hrest => hnot (awaits_of_rest hpending hrest)
    · exact ⟨hsource, q, content, hlookup, fun _ => .inr hhex, .inl ((hregistered _).2 hdir)⟩

section arrival

variable (hp : s.watcher.pathOf? p = some path) (hlookup : s.disk.lookup path = .ok (p, .folder))
include hlookup

omit hpending in
/-- A place is registered now if it was before, or if it is at or below the new directory. -/
theorem registered_cases (hq : (s.watcher.addTree s.disk path).Registered q) :
    s.watcher.Registered q ∨ ∃ rel, q = p ++ rel ∧ Source.outputName ∉ rel := by
  obtain ⟨r, hr, rfl⟩ := hq
  rcases (Watcher.addTree_takes hi.sound hi.here hlookup s.watcher).valid r hr with
    hr | ⟨-, rel, hrel, hout⟩
  · exact .inl ⟨r, hr, rfl⟩
  · exact .inr ⟨rel, hrel, hout⟩

omit hpending in
theorem extends_addTree : s.watcher.registered <+: (s.watcher.addTree s.disk path).registered :=
  (Watcher.addTree_takes hi.sound hi.here hlookup s.watcher).registered

include hp

omit hpending in
theorem watched_addTree (hbase : Path.base path ≠ Source.outputName)
    (hq : (s.watcher.addTree s.disk path).Registered q) : Watched d dirs q := by
  rcases registered_cases hi hlookup hq with hq | ⟨rel, rfl, hrel⟩
  · exact hi.watched q hq
  · have hget := (Disk.lookup_eq_ok_iff.1 hlookup).2.2.1
    have hlast : p.getLast? = some (Path.base path) := by
      apply Watcher.base_pathOf? hp
      intro name hname
      exact hi.sound.isName (hget ▸ rfl) name (List.mem_of_getLast? hname)
    obtain ⟨dir, hdir, root, rel', hroot, hparent, hrel'⟩ :=
      hi.watched _ (registered_parent hp).2
    obtain ⟨front, rfl⟩ := List.getLast?_eq_some_iff.1 hlast
    rw [List.dropLast_concat] at hparent
    refine ⟨dir, hdir, root, rel' ++ [Path.base path] ++ rel, hroot, by simp [hparent], ?_⟩
    simp [hrel', hrel, hbase.symm]

theorem unregistered_addTree (hq : (s.watcher.addTree s.disk path).Registered q) :
    ¬ ∃ y ∈ rest, ∃ a, s.disk.lookup y = .ok (a, .folder) ∧ a <+: q := by
  rintro ⟨y, hy, a, ha, hle⟩
  have hy' : y ∈ s.pending := hpending ▸ List.mem_cons_of_mem path hy
  rcases registered_cases hi hlookup hq with hq | ⟨rel, rfl, -⟩
  · exact hi.unregistered q hq ⟨y, hy', a, ha, hle⟩
  · -- The other directory would be the new one, stand above it, or stand in it.
    obtain ⟨hne, hparent⟩ := registered_parent hp
    rcases Decidable.em (a = p) with rfl | hap
    · exact (once_cons hi hpending).1 y hy a hlookup ha
    · rcases List.prefix_or_prefix_of_prefix hle (List.prefix_append p rel) with hle | hle
      · exact hi.unregistered _ hparent ⟨y, hy', a, ha, Place.prefix_dropLast hne hle hap⟩
      · obtain ⟨q, e, hq, hlookup'⟩ := hi.known y hy'
        cases ha.symm.trans hlookup'
        obtain ⟨hne', hparent'⟩ := registered_parent hq
        exact hi.unregistered _ hparent' ⟨path, hpending ▸ List.mem_cons_self, p, hlookup,
          Place.prefix_dropLast hne' hle (Ne.symm hap)⟩

omit hp in
theorem covered_addTree (hq : Watched d dirs q) (hfolder : s.disk.tree.get? q = some .folder) :
    (s.watcher.addTree s.disk path).Registered q ∨
      ∃ y ∈ rest, ∃ a, s.disk.lookup y = .ok (a, .folder) ∧ a <+: q := by
  rcases hi.covered q hq hfolder with hreg | hawaits
  · exact .inl (hreg.mono (extends_addTree hi hlookup))
  · rcases (awaits_iff_rest hpending).1 hawaits with ⟨a, ha, hle⟩ | hrest
    · cases hlookup.symm.trans ha
      obtain ⟨rel, rfl, hrel, -⟩ := watched_arrival hi hpending hq hlookup hle
      exact .inl (Watcher.registered_addTree hi.sound hi.here hlookup s.watcher hrel hfolder)
    · exact .inr hrest

omit hp in
/-- What had been recorded for a file has not become the record of an event by the arrival. -/
theorem pathOf?_before {content : String} (hq : s.disk.lookup y = .ok (q, .file content))
    (hawaits : s.watcher.Registered q.dropLast ∨ ¬ s.Awaits q.dropLast)
    (hqy : (s.watcher.addTree s.disk path).pathOf? q = some y) : s.watcher.pathOf? q = some y := by
  have hne : q ≠ [] := ne_root_of_file (Disk.lookup_eq_ok_iff.1 hq).2.2.1
  have hreg : s.watcher.Registered q.dropLast := by
    rcases hawaits with hreg | hnot
    · exact hreg
    · rcases registered_cases hi hlookup ((Watcher.isSome_pathOf?_iff hne).1 (hqy ▸ rfl)) with
        hreg | ⟨rel, hrel, -⟩
      · exact hreg
      · exact absurd ⟨path, hpending ▸ List.mem_cons_self, p, hlookup,
          hrel ▸ List.prefix_append p rel⟩ hnot
  obtain ⟨z, hz⟩ := Option.isSome_iff_exists.1 ((Watcher.isSome_pathOf?_iff hne).2 hreg)
  rw [hz, ← Watcher.pathOf?_mono (extends_addTree hi hlookup) hz, hqy]

omit hp in
theorem recorded_addTree (y hex : String)
    (hy : (s.watcher.addTree s.disk path).tracker.recorded? y = some hex) :
    Source.isPath y = true ∧ ∃ q content, s.disk.lookup y = .ok (q, .file content) ∧
      ((s.watcher.addTree s.disk path).pathOf? q = some y → y ∈ rest ∨ hex = fingerprint content) ∧
      ((s.watcher.addTree s.disk path).Registered q.dropLast ∨
        ¬ ∃ y ∈ rest, ∃ a, s.disk.lookup y = .ok (a, .folder) ∧ a <+: q.dropLast) := by
  rcases (Watcher.addTree_takes hi.sound hi.here hlookup s.watcher).recorded y with
    hsame | ⟨hsource, rel, content, hlookup', hrel, hout, hfresh⟩
  · rw [hsame] at hy
    obtain ⟨hsource, q, content, hlookup', hknown, hawaits⟩ := hi.recorded y hex hy
    have hne : y ≠ path := by
      rintro rfl
      cases hlookup'.symm.trans hlookup
    refine ⟨hsource, q, content, hlookup', ?_, ?_⟩
    · intro hqy
      apply (hknown (pathOf?_before hi hpending hlookup hlookup' hawaits hqy)).imp_left
      intro hmem
      rw [hpending] at hmem
      exact (List.mem_cons.1 hmem).resolve_left hne
    · exact hawaits.imp (fun hreg => hreg.mono (extends_addTree hi hlookup))
        fun hnot hrest => hnot (awaits_of_rest hpending hrest)
  · cases hy.symm.trans hfresh
    refine ⟨hsource, p ++ rel, content, hlookup', fun _ => .inr rfl, .inl ?_⟩
    have hget := (Disk.lookup_eq_ok_iff.1 hlookup').2.2.1
    rw [List.dropLast_append_of_ne_nil hrel]
    apply Watcher.registered_addTree hi.sound hi.here hlookup s.watcher hout
    apply hi.sound.above (q := [rel.getLast hrel]) (by simp)
    rw [List.append_assoc, List.dropLast_concat_getLast, hget]
    rfl

/-- A directory has arrived and is taken into account. -/
theorem invariant_addTree (hbase : Path.base path ≠ Source.outputName) :
    Invariant d dirs { s with watcher := s.watcher.addTree s.disk path, pending := rest } where
  sound := hi.sound
  here := hi.here
  valid := by
    intro r hr
    rcases (Watcher.addTree_takes hi.sound hi.here hlookup s.watcher).valid r hr with
      hr | ⟨hvalid, -⟩
    · exact hi.valid r hr
    · exact hvalid
  watched := fun _ => watched_addTree hi hp hlookup hbase
  roots := fun dir hdir q hq => (hi.roots dir hdir q hq).mono (extends_addTree hi hlookup)
  known := by
    intro y hy
    obtain ⟨q, e, hq, hlookup'⟩ := hi.known y (hpending ▸ List.mem_cons_of_mem path hy)
    exact ⟨q, e, Watcher.pathOf?_mono (extends_addTree hi hlookup) hq, hlookup'⟩
  once := by
    obtain ⟨-, honce⟩ := once_cons hi hpending
    exact honce
  unregistered := fun _ => unregistered_addTree hi hpending hp hlookup
  covered := fun _ => covered_addTree hi hpending hlookup
  recorded := recorded_addTree hi hpending hlookup

end arrival

theorem invariant_handle : (s.handle path rest).Invariant d dirs := by
  have hmem : path ∈ s.pending := hpending ▸ List.mem_cons_self
  obtain ⟨p, e, hp, hlookup⟩ := hi.known path hmem
  obtain ⟨-, -, hget, -⟩ := Disk.lookup_eq_ok_iff.1 hlookup
  rcases handle_cases hlookup with ⟨heq, hidle⟩ | ⟨rfl, hbase, heq⟩ | ⟨content, rfl, hsource, heq⟩
  · rw [heq]
    apply invariant_quiet hi hpending rfl
    · intro q a hq ha hle
      rcases hidle with ⟨rfl, hbase⟩ | ⟨hfile, -⟩
      · cases hlookup.symm.trans ha
        obtain ⟨-, -, -, hlast⟩ := watched_arrival hi hpending hq hlookup hle
        apply hlast (Path.base path) _ hbase
        exact Watcher.base_pathOf? hp fun name hname =>
          hi.sound.isName (hget ▸ rfl) name (List.mem_of_getLast? hname)
      · cases hlookup.symm.trans ha
        exact hfile rfl
    · intro y hex hy
      refine .inl ⟨hy, ?_⟩
      rintro rfl
      obtain ⟨hsource, q, content, hlookup', -, -⟩ := hi.recorded y hex hy
      rcases hidle with ⟨rfl, -⟩ | ⟨-, hno⟩
      · cases hlookup.symm.trans hlookup'
      · cases hsource.symm.trans hno
  · rw [heq]
    exact invariant_addTree hi hpending hp hlookup hbase
  · have hread : s.disk.read path = .ok content := Disk.read_eq_ok_iff.2 ⟨p, hlookup⟩
    rw [heq]
    refine invariant_quiet hi hpending ?_ ?_ ?_
    · rfl
    · intro q a hq ha
      cases hlookup.symm.trans ha
    · intro y hex hy
      have hrecorded := (Tracker.check_read (t := s.watcher.tracker) hread).1 y
      rw [hrecorded] at hy
      split at hy
      · rename_i hyp
        subst hyp
        cases hy
        exact .inr ⟨hsource, p, content, hlookup, rfl, (registered_parent hp).2⟩
      · rename_i hyp
        exact .inl ⟨hy, hyp⟩

end handle

/-! ## Runs -/

/-- A watcher that has taken the given directories into account. -/
structure Taken (d : Disk) (dirs : List String) (w : Watcher) : Prop where
  valid : ∀ r ∈ w.registered, r.Valid d ∧ Watched d dirs r.place
  covered : ∀ q, Watched d dirs q → d.tree.get? q = some .folder → w.Registered q
  recorded : ∀ y hex, w.tracker.recorded? y = some hex → Source.isPath y = true ∧
    ∃ q content, d.lookup y = .ok (q, .file content) ∧ hex = fingerprint content

theorem watched_concat {dir : String} : Watched d (dirs ++ [dir]) q ↔ Watched d dirs q ∨
    ∃ p rel, d.lookup dir = .ok (p, .folder) ∧ q = p ++ rel ∧ Source.outputName ∉ rel := by
  unfold Watched
  simp only [List.mem_append, List.mem_singleton, or_and_right, exists_or, exists_eq_left]

theorem start_watcher (d : Disk) (dirs : List String) : (Watcher.start d dirs).1 =
    dirs.foldl (fun w dir => if (d.lookup dir).isOk then w.addTree d dir else w) {} := by
  refine (List.foldl_hom Prod.fst ?_).symm
  intro x dir
  dsimp only
  split <;> rfl

section start

variable (hs : d.tree.Sound) (hhere : d.tree.get? d.here = some .folder)
include hs hhere

theorem taken_concat {dir : String} {w : Watcher} (h : Taken d dirs w) :
    Taken d (dirs ++ [dir]) (if (d.lookup dir).isOk then w.addTree d dir else w) := by
  have hvalid : ∀ r ∈ w.registered, r.Valid d ∧ Watched d (dirs ++ [dir]) r.place :=
    fun r hr => ⟨(h.valid r hr).1, watched_concat.2 (.inl (h.valid r hr).2)⟩
  cases hdir : d.lookup dir with
  | error fault =>
    refine ⟨hvalid, ?_, h.recorded⟩
    intro q hq hfolder
    rcases watched_concat.1 hq with hq | ⟨p, -, hp, -⟩
    · exact h.covered q hq hfolder
    · cases hdir.symm.trans hp
  | ok found =>
    obtain ⟨p, e⟩ := found
    rw [if_pos (show (Except.ok (p, e)).isOk = true from rfl)]
    cases e with
    | folder =>
      have htakes := Watcher.addTree_takes hs hhere hdir w
      refine ⟨?_, ?_, ?_⟩
      · intro r hr
        rcases htakes.valid r hr with hr | ⟨hr, rel, hrel, hout⟩
        · exact hvalid r hr
        · exact ⟨hr, watched_concat.2 (.inr ⟨p, rel, hdir, hrel, hout⟩)⟩
      · intro q hq hfolder
        rcases watched_concat.1 hq with hq | ⟨p', rel, hp', rfl, hout⟩
        · exact (h.covered q hq hfolder).mono htakes.registered
        · cases hdir.symm.trans hp'
          exact Watcher.registered_addTree hs hhere hdir w hout hfolder
      · intro y hex hy
        rcases htakes.recorded y with hsame | ⟨hsource, rel, content, hlookup, -, -, hfresh⟩
        · exact h.recorded y hex (hsame.symm.trans hy)
        · exact ⟨hsource, _, content, hlookup, Option.some.inj (hy.symm.trans hfresh)⟩
    | file content =>
      have hcovered : ∀ q, Watched d (dirs ++ [dir]) q → d.tree.get? q = some .folder →
          w.Registered q := by
        intro q hq hfolder
        rcases watched_concat.1 hq with hq | ⟨p', -, hp', -⟩
        · exact h.covered q hq hfolder
        · cases hdir.symm.trans hp'
      have hread : d.read dir = .ok content := Disk.read_eq_ok_iff.2 ⟨p, hdir⟩
      unfold Watcher.addTree
      rw [hdir]
      dsimp only
      split
      · rename_i hsource
        refine ⟨hvalid, hcovered, ?_⟩
        intro y hex hy
        rw [Watcher.record, (Tracker.check_read hread).1] at hy
        split at hy
        · rename_i hyd
          subst hyd
          exact ⟨hsource, p, content, hdir, (Option.some.inj hy).symm⟩
        · exact h.recorded y hex hy
      · exact ⟨hvalid, hcovered, h.recorded⟩

theorem taken_start (dirs : List String) : Taken d dirs (Watcher.start d dirs).1 := by
  rw [start_watcher]
  induction dirs using List.reverseRecOn with
  | nil =>
    refine ⟨nofun, ?_, nofun⟩
    rintro q ⟨dir, hdir, -⟩
    cases hdir
  | append_singleton dirs dir ih =>
    rw [List.foldl_append]
    exact taken_concat hs hhere ih

theorem invariant_start (dirs : List String) : (start d dirs).Invariant d dirs := by
  have htaken := taken_start hs hhere dirs
  have hnone : ∀ q, ¬ (start d dirs).Awaits q := by
    rintro q ⟨y, hy, -⟩
    cases hy
  refine ⟨hs, hhere, fun r hr => (htaken.valid r hr).1, ?_, ?_, nofun, .nil, fun q _ => hnone q,
    fun q hq hfolder => .inl (htaken.covered q hq hfolder), ?_⟩
  · rintro q ⟨r, hr, rfl⟩
    exact (htaken.valid r hr).2
  · intro dir hdir p hp
    apply htaken.covered p ⟨dir, hdir, p, [], hp, (List.append_nil p).symm, List.not_mem_nil⟩
    exact (Disk.lookup_eq_ok_iff.1 hp).2.2.1
  · intro y hex hy
    obtain ⟨hsource, q, content, hlookup, hhex⟩ := htaken.recorded y hex hy
    exact ⟨hsource, q, content, hlookup, fun _ => .inr hhex, .inr (hnone _)⟩

end start

theorem invariant_act {a : Action} (hi : s.Invariant d dirs) (h : s.act? a = some s') :
    s'.Invariant d dirs := by
  cases a with
  | change c =>
    obtain ⟨hallows, rfl⟩ := act?_change.1 h
    exact invariant_change hi hallows
  | handle =>
    obtain ⟨path, rest, hpending, rfl⟩ := act?_handle.1 h
    exact invariant_handle hi hpending

theorem invariant_run {actions : List Action} (hi : s.Invariant d dirs)
    (h : s.run? actions = some s') : s'.Invariant d dirs := by
  induction actions generalizing s with
  | nil =>
    cases h
    exact hi
  | cons a actions ih =>
    obtain ⟨u, hu, hrun⟩ := run?_cons.1 h
    exact ih (invariant_act hi hu) hrun

end Watching

end Courtesy
