import Courtesy.Proofs.Watching

/-!
# Updates of sources

A source may be written, or arrive with a directory, while the watcher is busy. The update that
comes last decides: once all events have been handled, a build has been asked for by the source
since then if and only if its directory was registered and something else was recorded for it at
that moment (`Watching.asked_iff`). The directory was registered unless its own arrival, or that of
a directory above it, was still pending. So an update is lost in three ways only: it comes with the
directory it is in, it is made before the watcher has taken the directory into account, or it brings
back the content recorded last while the event of another update is pending.
-/

namespace Courtesy

namespace Watching

/-- An event for a place has asked for a build since the first `n` builds. -/
def AskedSince (s : Watching) (n : Nat) (p : Place) : Prop :=
  ∃ y ∈ s.builds.drop n, s.disk.Leads y p

/-- A content is the one that is recorded under the path of the events for a place. -/
def Knows (s : Watching) (p : Place) (content : String) : Prop :=
  ∃ y, s.watcher.pathOf? p = some y ∧ s.watcher.tracker.recorded? y = some (fingerprint content)

/-- In a run that has come to `t`, the change `c` in the state `s` is the last one that touched the
place `p`, and it left a file with this content there. -/
structure LastUpdate (d : Disk) (dirs : List String) (s t : Watching) (c : Change) (p : Place)
    (content : String) : Prop where
  reached : ∃ actions, (start d dirs).run? actions = some s
  allowed : s.Allows c
  touched : c.place <+: p
  holds : (s.change c).disk.tree.get? p = some (.file content)
  last : ∃ actions, (s.change c).run? actions = some t ∧
    ∀ c', .change c' ∈ actions → ¬ c'.place <+: p

variable {s s' t : Watching} {d : Disk} {dirs : List String} {c : Change} {p q : Place}
  {y path content : String} {rest : List String} {n : Nat}

theorem lookup_of_pending (hi : s.Invariant d dirs) (hy : y ∈ s.pending)
    (hp : s.watcher.pathOf? p = some y) {e : Entry} (he : s.disk.tree.get? p = some e) :
    s.disk.lookup y = .ok (p, e) := by
  obtain ⟨q, e', -, hlookup⟩ := hi.known y hy
  obtain ⟨-, hleads, hget, -⟩ := Disk.lookup_eq_ok_iff.1 hlookup
  have hqp : q = p := hleads.unique (Watcher.leads_pathOf? hi.valid hp hi.sound (he ▸ rfl))
  rw [hlookup, hqp]
  rw [hqp, he] at hget
  cases hget
  rfl

theorem pathOf?_of_lookup (hi : s.Invariant d dirs) (hy : y ∈ s.pending) {e : Entry}
    (h : s.disk.lookup y = .ok (p, e)) : s.watcher.pathOf? p = some y := by
  obtain ⟨q, e', hq, hlookup⟩ := hi.known y hy
  cases h.symm.trans hlookup
  exact hq

/-! ## An update that a build follows -/

/-- The source `p`, known by the path `y`, has asked for a build, or will do so when the next event
for it is handled. -/
structure Owing (n : Nat) (p : Place) (y content : String) (s : Watching) : Prop where
  holds : s.disk.tree.get? p = some (.file content)
  path : s.watcher.pathOf? p = some y
  le : n ≤ s.builds.length
  due : y ∈ s.builds.drop n ∨
    y ∈ s.pending ∧ s.watcher.tracker.recorded? y ≠ some (fingerprint content)

theorem owing_change (hi : s.Invariant d dirs) (h : s.Allows c) (hne : ¬ c.place <+: p)
    (ho : Owing n p y content s) : Owing n p y content (s.change c) := by
  constructor
  · rw [disk_change hi h]
    exact (h.1.get?_outside hi.sound hne).trans ho.holds
  · rw [watcher_change hi h]
    exact ho.path
  · rw [builds_change hi h]
    exact ho.le
  · rw [builds_change hi h, watcher_change hi h, mem_pending_change hi h]
    exact ho.due.imp_right fun ⟨hy, hrec⟩ => ⟨.inl hy, hrec⟩

theorem owing_handle (hi : s.Invariant d dirs) (hpending : s.pending = path :: rest)
    (hsource : Source.isPath y = true) (ho : Owing n p y content s) :
    Owing n p y content (s.handle path rest) := by
  have hmem : path ∈ s.pending := hpending ▸ List.mem_cons_self
  have hself : path = y → s.disk.lookup path = .ok (p, .file content) := by
    rintro rfl
    exact lookup_of_pending hi hmem ho.path ho.holds
  have hrest : path ≠ y → y ∈ s.pending → y ∈ rest := by
    intro hne hy
    rw [hpending] at hy
    exact (List.mem_cons.1 hy).resolve_left (Ne.symm hne)
  obtain ⟨p', e, hp', hlookup⟩ := hi.known path hmem
  rcases handle_cases hlookup with ⟨heq, hidle⟩ | ⟨rfl, hbase, heq⟩ | ⟨content', rfl, -, heq⟩
  · rw [heq]
    refine ⟨ho.holds, ho.path, ho.le, ho.due.imp_right ?_⟩
    rintro ⟨hy, hrec⟩
    refine ⟨hrest ?_ hy, hrec⟩
    rintro rfl
    cases hlookup.symm.trans (hself rfl)
    rcases hidle with ⟨hfolder, -⟩ | ⟨-, hno⟩
    · cases hfolder
    · cases hsource.symm.trans hno
  · rw [heq]
    have htakes := Watcher.addTree_takes hi.sound hi.here hlookup s.watcher
    refine ⟨ho.holds, Watcher.pathOf?_mono htakes.registered ho.path, ho.le, ho.due.imp_right ?_⟩
    rintro ⟨hy, hrec⟩
    have hne : path ≠ y := by
      rintro rfl
      cases hlookup.symm.trans (hself rfl)
    refine ⟨hrest hne hy, ?_⟩
    rcases htakes.recorded y with hsame | ⟨-, rel, content', hlookup', hrel, -, -⟩
    · exact hsame ▸ hrec
    · -- The source cannot stand in the new directory, since its own directory is registered.
      cases hlookup'.symm.trans (lookup_of_pending hi hy ho.path ho.holds)
      refine absurd ?_ (hi.unregistered _ (registered_parent ho.path).2)
      rw [List.dropLast_append_of_ne_nil hrel]
      exact ⟨path, hmem, p', hlookup, List.prefix_append p' _⟩
  · have hread : s.disk.read path = .ok content' := Disk.read_eq_ok_iff.2 ⟨p', hlookup⟩
    obtain ⟨hrecorded, hdue⟩ := Tracker.check_read (t := s.watcher.tracker) hread
    rw [heq]
    refine ⟨ho.holds, ho.path, ?_, ?_⟩
    · have := ho.le
      dsimp only
      split
      · rw [List.length_append]
        omega
      · exact this
    · dsimp only
      rcases ho.due with hy | ⟨hy, hrec⟩
      · refine .inl ?_
        split
        · rw [List.drop_append_of_le_length ho.le]
          exact List.mem_append_left _ hy
        · exact hy
      · by_cases hne : path = y
        · cases hlookup.symm.trans (hself hne)
          subst hne
          rw [if_pos (hdue.2 hrec), List.drop_append_of_le_length ho.le]
          exact .inl (List.mem_append_right _ List.mem_cons_self)
        · refine .inr ⟨hrest hne hy, ?_⟩
          rw [hrecorded, if_neg (Ne.symm hne)]
          exact hrec

/-- What every change elsewhere keeps, and every event, is kept by a run without a change at `p`. -/
theorem kept_run {P : Watching → Prop} {actions : List Action} (hi : s.Invariant d dirs)
    (hrun : s.run? actions = some t) (hlast : ∀ c', .change c' ∈ actions → ¬ c'.place <+: p)
    (hchange : ∀ {s c}, s.Invariant d dirs → s.Allows c → ¬ c.place <+: p → P s → P (s.change c))
    (hhandle : ∀ {s path rest}, s.Invariant d dirs → s.pending = path :: rest → P s →
      P (s.handle path rest)) (h : P s) : P t := by
  induction actions generalizing s with
  | nil =>
    cases hrun
    exact h
  | cons a actions ih =>
    obtain ⟨u, hu, hrun⟩ := run?_cons.1 hrun
    apply ih (invariant_act hi hu) hrun fun c' hc' => hlast c' (List.mem_cons_of_mem a hc')
    cases a with
    | change c' =>
      obtain ⟨hallows, rfl⟩ := act?_change.1 hu
      exact hchange hi hallows (hlast c' List.mem_cons_self) h
    | handle =>
      obtain ⟨path, rest, hpending, rfl⟩ := act?_handle.1 hu
      exact hhandle hi hpending h

theorem owing_run {actions : List Action} (hi : s.Invariant d dirs)
    (hsource : Source.isPath y = true) (hrun : s.run? actions = some t)
    (hlast : ∀ c', .change c' ∈ actions → ¬ c'.place <+: p)
    (ho : Owing n p y content s) : Owing n p y content t :=
  kept_run hi hrun hlast owing_change (fun hi hpending => owing_handle hi hpending hsource) ho

/-! ## An update that no build follows -/

/-- The source `p` has asked for no build and will ask for none: every event for it finds the
content recorded that is there. -/
structure Quiet (n : Nat) (p : Place) (content : String) (s : Watching) : Prop where
  holds : s.disk.tree.get? p = some (.file content)
  pending : ∀ y ∈ s.pending, ∀ e, s.disk.lookup y = .ok (p, e) →
    s.watcher.tracker.recorded? y = some (fingerprint content)
  builds : ∀ y ∈ s.builds.drop n, ∃ q, q ≠ p ∧ s.disk.Leads y q

theorem quiet_change (hi : s.Invariant d dirs) (h : s.Allows c) (hne : ¬ c.place <+: p)
    (hq : Quiet n p content s) : Quiet n p content (s.change c) := by
  constructor
  · rw [disk_change hi h]
    exact (h.1.get?_outside hi.sound hne).trans hq.holds
  · intro y hy e he
    rw [watcher_change hi h]
    rcases (mem_pending_change hi h).1 hy with hy | hy
    · obtain ⟨q, e', hp, hlookup⟩ := hi.known y hy
      have hqp : q = p := by
        rcases lookup_pending hi h hlookup with hnow | ⟨-, -, content', hnow⟩
        · cases he.symm.trans hnow
          rfl
        · cases he.symm.trans hnow
          rfl
      exact hq.pending y hy e' (hqp ▸ hlookup)
    · have hplace : c.place = p := by
        rcases h.1.get?_place hi.sound with ⟨-, content', hfile⟩ | ⟨-, hfolder⟩
        · cases he.symm.trans (lookup_event hi h hy hfile)
          rfl
        · cases he.symm.trans (lookup_event hi h hy hfolder)
          rfl
      exact absurd (hplace ▸ List.prefix_rfl) hne
  · intro y hy
    rw [builds_change hi h] at hy
    obtain ⟨q, hqp, hleads⟩ := hq.builds y hy
    refine ⟨q, hqp, ?_⟩
    rw [disk_change hi h]
    exact hleads.grown (h.1.grown hi.sound)

theorem quiet_handle (hi : s.Invariant d dirs) (hpending : s.pending = path :: rest)
    (hq : Quiet n p content s) : Quiet n p content (s.handle path rest) := by
  have hmem : path ∈ s.pending := hpending ▸ List.mem_cons_self
  have hless : ∀ y ∈ rest, y ∈ s.pending := fun y hy => hpending ▸ List.mem_cons_of_mem path hy
  have hfile : ∀ {y e}, s.disk.lookup y = .ok (p, e) → e = .file content := by
    intro y e he
    exact Option.some.inj ((Disk.lookup_eq_ok_iff.1 he).2.2.1.symm.trans hq.holds)
  obtain ⟨p', e, hp', hlookup⟩ := hi.known path hmem
  rcases handle_cases hlookup with ⟨heq, -⟩ | ⟨rfl, -, heq⟩ | ⟨content', rfl, -, heq⟩
  · rw [heq]
    exact ⟨hq.holds, fun y hy => hq.pending y (hless y hy), hq.builds⟩
  · rw [heq]
    have htakes := Watcher.addTree_takes hi.sound hi.here hlookup s.watcher
    refine ⟨hq.holds, ?_, hq.builds⟩
    intro y hy e he
    rcases htakes.recorded y with hsame | ⟨-, rel, content', hlookup', -, -, hfresh⟩
    · exact hsame.trans (hq.pending y (hless y hy) e he)
    · cases he.symm.trans hlookup'
      cases hfile he
      exact hfresh
  · have hread : s.disk.read path = .ok content' := Disk.read_eq_ok_iff.2 ⟨p', hlookup⟩
    obtain ⟨hrecorded, hdue⟩ := Tracker.check_read (t := s.watcher.tracker) hread
    rw [heq]
    refine ⟨hq.holds, ?_, ?_⟩
    · intro y hy e he
      dsimp only
      rw [hrecorded]
      split
      · rename_i hyp
        subst hyp
        cases he.symm.trans hlookup
        cases hfile he
        rfl
      · exact hq.pending y (hless y hy) e he
    · intro y hy
      dsimp only at hy
      split at hy
      · rename_i hchanged
        rw [List.drop_append, List.mem_append] at hy
        rcases hy with hy | hy
        · exact hq.builds y hy
        · have hyp : y = path := List.mem_singleton.1 (List.mem_of_mem_drop hy)
          refine ⟨p', ?_, hyp ▸ (Disk.lookup_eq_ok_iff.1 hlookup).2.1⟩
          rintro rfl
          cases hfile hlookup
          exact hdue.1 hchanged (hq.pending path hmem _ hlookup)
      · exact hq.builds y hy

theorem quiet_run {actions : List Action} (hi : s.Invariant d dirs) (hrun : s.run? actions = some t)
    (hlast : ∀ c', .change c' ∈ actions → ¬ c'.place <+: p) (hq : Quiet n p content s) :
    Quiet n p content t :=
  kept_run hi hrun hlast quiet_change quiet_handle hq

/-! ## The last update -/

/-- A change that leaves a file in a registered directory happens at this file. -/
theorem place_eq (hi : s.Invariant d dirs) (h : s.Allows c) (hle : c.place <+: p)
    (hp : s.watcher.pathOf? p = some y)
    (hfile : (s.change c).disk.tree.get? p = some (.file content)) :
    c.place = p := by
  obtain ⟨hne, r, hr, hplace⟩ := registered_parent hp
  apply Decidable.byContradiction
  intro hcp
  have hfolder := (hi.valid r hr).folder
  have hle' : c.place <+: p.dropLast := Place.prefix_dropLast hne hle hcp
  rcases h.1.get?_place hi.sound with ⟨-, content', hplace'⟩ | ⟨hnone, -⟩
  · rw [disk_change hi h] at hfile
    exact hcp ((h.1.sound hi.sound).eq_of_below_file hplace' hle (hfile ▸ rfl)).symm
  · rw [hplace, hi.sound.get?_below hnone hle'] at hfolder
    cases hfolder

theorem asked_iff (hi : s.Invariant d dirs) (h : s.Allows c) (hle : c.place <+: p)
    (hfile : (s.change c).disk.tree.get? p = some (.file content)) {name : String}
    (hname : p.getLast? = some name) (hsource : Source.isPath name = true) {actions : List Action}
    (hrun : (s.change c).run? actions = some t)
    (hlast : ∀ c', .change c' ∈ actions → ¬ c'.place <+: p) (hdone : t.pending = []) :
    t.AskedSince s.builds.length p ↔ ∃ y, s.watcher.pathOf? p = some y ∧
      s.watcher.tracker.recorded? y ≠ some (fingerprint content) := by
  have hi' := invariant_change hi h
  have hnone : (s.change c).builds.drop s.builds.length = [] := by
    rw [builds_change hi h, List.drop_length]
  constructor
  · rintro ⟨y, hy, hleads⟩
    apply Classical.byContradiction
    intro hnot
    -- Every event for the source finds its content recorded, so none of them asks for a build.
    have hquiet : Quiet s.builds.length p content (s.change c) := by
      refine ⟨hfile, ?_, by simp [hnone]⟩
      intro z hz e he
      have hpz := pathOf?_of_lookup hi' hz he
      rw [watcher_change hi h] at hpz ⊢
      apply Classical.byContradiction
      exact fun hrec => hnot ⟨z, hpz, hrec⟩
    obtain ⟨q, hqp, hleads'⟩ := (quiet_run hi' hrun hlast hquiet).builds y hy
    exact hqp (hleads'.unique hleads)
  · rintro ⟨y, hy, hrec⟩
    have hplace := place_eq hi h hle hy hfile
    have howing : Owing s.builds.length p y content (s.change c) := by
      refine ⟨hfile, ?_, ?_, .inr ⟨?_, ?_⟩⟩
      · rwa [watcher_change hi h]
      · exact Nat.le_of_eq (congrArg List.length (builds_change hi h).symm)
      · rw [mem_pending_change hi h, hplace]
        exact .inr hy
      · rwa [watcher_change hi h]
    have hend := owing_run hi' (Watcher.isPath_pathOf? hy hname hsource) hrun hlast howing
    have hit := invariant_run hi' hrun
    rcases hend.due with hbuilt | ⟨hmem, -⟩
    · exact ⟨y, hbuilt, Watcher.leads_pathOf? hit.valid hend.path hit.sound (hend.holds ▸ rfl)⟩
    · rw [hdone] at hmem
      cases hmem

/-- A place is known to the watcher if it is in a watched directory that is there and that it does
not await. -/
theorem isSome_pathOf?_iff_covered (hi : s.Invariant d dirs) (hp : p ≠ []) :
    (s.watcher.pathOf? p).isSome ↔ Watched d dirs p.dropLast ∧
      s.disk.tree.get? p.dropLast = some .folder ∧ ¬ s.Awaits p.dropLast := by
  rw [Watcher.isSome_pathOf?_iff hp]
  constructor
  · intro hreg
    refine ⟨hi.watched _ hreg, ?_, hi.unregistered _ hreg⟩
    obtain ⟨r, hr, hplace⟩ := hreg
    exact hplace ▸ (hi.valid r hr).folder
  · rintro ⟨hwatched, hfolder, hawaits⟩
    exact (hi.covered _ hwatched hfolder).resolve_right hawaits

/-- What is recorded for a place is what it holds, or an event for it is pending. -/
theorem known_content (hi : s.Invariant d dirs) (hname : ∀ name ∈ p.getLast?, Disk.IsName name)
    (h : s.Knows p content) : (∃ y ∈ s.pending, s.disk.Leads y p) ∨
      ∃ old, s.disk.tree.get? p = some (.file old) ∧ fingerprint old = fingerprint content := by
  obtain ⟨y, hy, hrec⟩ := h
  obtain ⟨-, q, old, hlookup, hknown, -⟩ := hi.recorded y _ hrec
  obtain ⟨-, hleads, hget, -⟩ := Disk.lookup_eq_ok_iff.1 hlookup
  cases Watcher.eq_of_leads_pathOf? hi.valid hy hname hleads
  rcases hknown hy with hmem | hsame
  · exact .inl ⟨y, hmem, hleads⟩
  · exact .inr ⟨old, hget, hsame.symm⟩

end Watching

open Watching

/-- When all events have been handled, a source has asked for a build since its last update if and
only if it was then in a watched directory that was there already and that the watcher did not
await, and the watcher did not know the new content. It knew it only if the source had this content
before, or an event for it was still pending. -/
theorem update_built_iff {d : Disk} (hs : d.tree.Sound) (hhere : d.tree.get? d.here = some .folder)
    {dirs : List String} {s t : Watching} {c : Change} {p : Place} {name content : String}
    (h : LastUpdate d dirs s t c p content) (hname : p.getLast? = some name)
    (hsource : Source.isPath name = true) (hdone : t.pending = []) :
    (t.AskedSince s.builds.length p ↔
      (Watched d dirs p.dropLast ∧ s.disk.tree.get? p.dropLast = some .folder ∧
        ¬ s.Awaits p.dropLast) ∧ ¬ s.Knows p content) ∧
    (s.Knows p content → (∃ y ∈ s.pending, s.disk.Leads y p) ∨
      ∃ old, s.disk.tree.get? p = some (.file old) ∧ fingerprint old = fingerprint content) := by
  obtain ⟨before, hbefore⟩ := h.reached
  obtain ⟨after, hafter, hlast⟩ := h.last
  have hi := invariant_run (invariant_start hs hhere dirs) hbefore
  have hi' := invariant_change hi h.allowed
  have hp : p ≠ [] := ne_root_of_file h.holds
  have hnames : ∀ name ∈ p.getLast?, Disk.IsName name :=
    fun name hmem => hi'.sound.isName (h.holds ▸ rfl) name (List.mem_of_getLast? hmem)
  refine ⟨?_, known_content hi hnames⟩
  rw [asked_iff hi h.allowed h.touched h.holds hname hsource hafter hlast hdone,
    ← isSome_pathOf?_iff_covered hi hp, Option.isSome_iff_exists]
  constructor
  · rintro ⟨y, hy, hrec⟩
    refine ⟨⟨y, hy⟩, ?_⟩
    rintro ⟨z, hz, hknown⟩
    cases hy.symm.trans hz
    exact hrec hknown
  · rintro ⟨⟨y, hy⟩, hnot⟩
    exact ⟨y, hy, fun hknown => hnot ⟨y, hy, hknown⟩⟩

/-- A source that is written into a directory made under the eyes of the watcher is built. -/
theorem update_built_in_new_directory :
    ∃ s t : Watching,
      LastUpdate ⟨⟨[(["src"], .folder)]⟩, []⟩ ["src"] s t
        (.putFile ["src", "lessons", "a.polite"] "please create integer x")
        ["src", "lessons", "a.polite"] "please create integer x" ∧
      t.pending = [] ∧ t.AskedSince s.builds.length ["src", "lessons", "a.polite"] := by
  have hsound : Tree.Sound ⟨[(["src"], .folder)]⟩ := by
    refine ⟨?_, ?_, ?_⟩
    · intro p e hmem name hname
      cases List.mem_singleton.1 hmem
      cases List.mem_singleton.1 hname
      decide +kernel
    · intro p name e hmem
      have hp : p ++ [name] = [] ++ ["src"] := congrArg Prod.fst (List.mem_singleton.1 hmem)
      rw [(List.append_inj' hp rfl).1]
      rfl
    · intro p hmem
      cases List.mem_singleton.1 hmem
      rfl
  have hrun : ((start ⟨⟨[(["src"], .folder)]⟩, []⟩ ["src"]).run?
      [.change (.makeFolder ["src", "lessons"]), .handle]).any (fun s =>
        s.pending = [] ∧ s.disk.tree.get? ["src", "lessons"] = some .folder ∧
        (s.watcher.pathOf? ["src", "lessons", "a.polite"]).bind s.watcher.tracker.recorded? = none ∧
        s.Allows (.putFile ["src", "lessons", "a.polite"] "please create integer x") ∧
        (s.change (.putFile ["src", "lessons", "a.polite"]
          "please create integer x")).disk.tree.get? ["src", "lessons", "a.polite"] =
            some (.file "please create integer x") ∧
        ((s.change (.putFile ["src", "lessons", "a.polite"] "please create integer x")).run?
          [.handle]).map (·.pending) = some []) = true := by
    decide +kernel
  obtain ⟨s, hs, hfacts⟩ := (Option.any_eq_true _ _).1 hrun
  obtain ⟨hpending, hfolder, hrecorded, hallows, hholds, hend⟩ := of_decide_eq_true hfacts
  obtain ⟨t, ht, hdone⟩ := Option.map_eq_some_iff.1 hend
  have hlast : LastUpdate ⟨⟨[(["src"], .folder)]⟩, []⟩ ["src"] s t
      (.putFile ["src", "lessons", "a.polite"] "please create integer x")
      ["src", "lessons", "a.polite"] "please create integer x" :=
    ⟨⟨_, hs⟩, hallows, List.prefix_rfl, hholds, _, ht, by simp⟩
  refine ⟨s, t, hlast, hdone, ?_⟩
  refine (update_built_iff hsound rfl hlast rfl (by decide +kernel) hdone).1.2
    ⟨⟨?_, hfolder, ?_⟩, ?_⟩
  · exact ⟨"src", List.mem_cons_self, ["src"], ["lessons"], by decide +kernel, rfl, by decide⟩
  · rintro ⟨y, hy, -⟩
    rw [hpending] at hy
    cases hy
  · rintro ⟨y, hy, hknown⟩
    rw [hy, Option.bind_some, hknown] at hrecorded
    cases hrecorded

/-- A directory arrives with a source in it: when this has been handled, no build has been asked for
at all. -/
theorem arrival_unbuilt :
    ((start ⟨⟨[(["src"], .folder)]⟩, []⟩ ["src"]).run?
      [.change (.putTree ["src", "lessons"] [(["a.polite"], "please create integer x")]),
        .handle]).map (fun t =>
          (t.disk.tree.get? ["src", "lessons", "a.polite"], t.pending, t.builds)) =
      some (some (.file "please create integer x"), [], []) := by
  decide +kernel

end Courtesy
