import Courtesy.Proofs.Admission
import Courtesy.Proofs.RoundTrip

/-!
# The metrics and the answers

A client reads from the body of a translation whether it went through and the categories of its
diagnostics (`Told.ofBody?`). One request changes the metrics by what its own answer tells, and by
nothing if it was not answered by a translation (`Server.handle_metrics`). Main statement: whatever
the limiters let through, after any requests the counters of a new service are the numbers that its
clients find in the answers.
-/

namespace Courtesy.Service

namespace Json

/-- The value of a field. -/
def field? (key : String) : Json → Option Json
  | object fields => fields.lookup key
  | _ => none

def flag? : Json → Option Bool
  | flag b => some b
  | _ => none

def text? : Json → Option String
  | text s => some s
  | _ => none

def items? : Json → Option (List Json)
  | list items => some items
  | _ => none

end Json

/-- What a translation tells its client: whether it went through, and the category of each
diagnostic. -/
structure Told where
  ok : Bool
  categories : List String
  deriving DecidableEq, Repr

namespace Told

/-- What a value tells. -/
def ofJson? (v : Json) : Option Told := do
  let ok ← v.field? "ok" >>= Json.flag?
  let diagnostics ← v.field? "diagnostics" >>= Json.items?
  let categories ← diagnostics.mapM fun d => d.field? "category" >>= Json.text?
  return ⟨ok, categories⟩

/-- What a body tells: it holds one value and a line end. -/
def ofBody? (body : String) : Option Told := do
  let (v, rest) ← Json.read? body.toList
  if rest = ['\n'] then ofJson? v else none

/-- What the translation of a program has to tell. -/
def ofRun (run : Run) : Told := ⟨run.succeeded, run.diagnostics.map (·.category.name)⟩

/-- Whether a visit was answered by a translation. -/
def IsTranslation (x : Visit × Response) : Prop :=
  x.1.request.path = "/api/translate" ∧ x.2.status = 200

instance : DecidablePred IsTranslation := fun x =>
  inferInstanceAs (Decidable (x.1.request.path = "/api/translate" ∧ x.2.status = 200))

/-- What the answer to a visit tells, if it is a translation. -/
def ofAnswer? (x : Visit × Response) : Option Told :=
  if IsTranslation x then ofBody? x.2.body else none

end Told

namespace Metrics

/-- The metrics after one more translation, by what it tells. -/
def note (m : Metrics) (t : Told) : Metrics :=
  { results := m.results.add (resultName t.ok), faults := m.faults.addAll t.categories }

theorem observe_eq (m : Metrics) (run : Run) : m.observe run = m.note (.ofRun run) := rfl

theorem count_results_foldl_note (m : Metrics) (told : List Told) (b : Bool) :
    (told.foldl note m).results.count (resultName b) =
      m.results.count (resultName b) + told.countP (·.ok == b) := by
  induction told generalizing m with
  | nil => rfl
  | cons t told ih =>
    have hname : resultName t.ok = resultName b ↔ (t.ok == b) = true := by
      cases t.ok <;> cases b <;> decide
    have hadd : (m.note t).results.count (resultName b) =
        m.results.count (resultName b) + if (t.ok == b) = true then 1 else 0 := by
      rw [note, Tally.count_add]
      simp only [hname]
    rw [List.foldl_cons, ih, hadd, List.countP_cons, Nat.add_assoc,
      Nat.add_comm (List.countP _ told)]

theorem count_faults_foldl_note (m : Metrics) (told : List Told) (category : String) :
    (told.foldl note m).faults.count category =
      m.faults.count category + (told.flatMap (·.categories)).count category := by
  induction told generalizing m with
  | nil => rfl
  | cons t told ih =>
    rw [List.foldl_cons, ih, note, Tally.count_addAll, List.flatMap_cons, List.count_append,
      Nat.add_assoc]

end Metrics

/-! ## Reading a translation -/

namespace Json

theorem Proper.diagnosticJson (n : Nat) (d : Diagnostic) :
    Proper (n + 1) (Server.diagnosticJson d) := by
  refine .object ?_
  intro field hfield
  simp only [List.mem_append, List.mem_cons, List.not_mem_nil, or_false] at hfield
  rcases hfield with (((rfl | rfl) | hline) | hcolumn) | hterminal
  · exact .text _
  · exact .text _
  · split at hline
    · cases hline
    · rw [List.mem_singleton.1 hline]
      exact .int _
  · split at hcolumn
    · cases hcolumn
    · rw [List.mem_singleton.1 hcolumn]
      exact .int _
  · split at hterminal
    · rw [List.mem_singleton.1 hterminal]
      exact .flag true
    · cases hterminal

theorem Proper.translationJson (n : Nat) (id : String) (o : Target.Options) (run : Run) :
    Proper (n + 3) (Server.translationJson id o run) := by
  refine .object ?_
  intro field hfield
  simp only [List.mem_cons, List.not_mem_nil, or_false] at hfield
  rcases hfield with rfl | rfl | rfl | rfl
  · exact .text _
  · exact .flag _
  · exact .text _
  · refine .list ?_
    intro item hitem
    obtain ⟨d, -, rfl⟩ := List.mem_map.1 hitem
    exact .diagnosticJson n d

end Json

namespace Told

theorem ofJson?_translationJson (id : String) (o : Target.Options) (run : Run) :
    ofJson? (Server.translationJson id o run) = some (ofRun run) := by
  have hcategories : (run.diagnostics.map Server.diagnosticJson).mapM
      (fun d => d.field? "category" >>= Json.text?) =
        some (run.diagnostics.map (·.category.name)) := by
    rw [List.mapM_map]
    exact List.mapM_pure
  have hok :
      (Server.translationJson id o run).field? "ok" >>= Json.flag? = some run.succeeded := rfl
  have hdiagnostics : (Server.translationJson id o run).field? "diagnostics" >>= Json.items? =
      some (run.diagnostics.map Server.diagnosticJson) := rfl
  unfold ofJson?
  rw [hok, hdiagnostics, Option.bind_eq_bind, Option.bind_some, Option.bind_eq_bind,
    Option.bind_some, hcategories]
  rfl

theorem ofBody?_reply (id : String) (o : Target.Options) (run : Run) :
    ofBody? (Server.reply 200 (Server.translationJson id o run)).body = some (ofRun run) := by
  have hread : Json.read? ((Server.translationJson id o run).render ++ "\n").toList =
      some (Server.translationJson id o run, ['\n']) := by
    rw [String.toList_append]
    exact Json.read?_render (.translationJson 9997 id o run) (.inr ⟨'\n', [], rfl, by decide⟩)
  unfold ofBody? Server.reply
  rw [hread]
  exact ofJson?_translationJson id o run

end Told

namespace Server

variable {L : Library} {s : Server L} {v : Visit} {vs : List Visit} {i : Nat}

/-- The service after requests. -/
def after (s : Server L) (vs : List Visit) : Server L :=
  vs.foldl (fun s v => (s.handle v.disk v.now v.request).1) s

/-! ## One request -/

/-- A request that is let through is answered by a translation, which is noted, or it is refused. -/
theorem translated_metrics (s : Server L) (id : String) (r : Request) :
    ((s.translated id r).2.status = 200 ∧ ∃ t, Told.ofBody? (s.translated id r).2.body = some t ∧
      (s.translated id r).1.metrics = s.metrics.note t) ∨
    (s.translated id r).2.status ∈ [405, 400] ∧ (s.translated id r).1.metrics = s.metrics := by
  unfold translated
  split
  · exact .inr ⟨List.mem_cons_self, rfl⟩
  · split
    · exact .inr ⟨List.mem_cons_of_mem _ List.mem_cons_self, rfl⟩
    · rename_i asked _
      split
      · exact .inr ⟨List.mem_cons_of_mem _ List.mem_cons_self, rfl⟩
      · dsimp only
        exact .inl ⟨rfl, .ofRun (Courtesy.translate asked.source),
          Told.ofBody?_reply id (s.options asked) (Courtesy.translate asked.source),
          Metrics.observe_eq s.metrics (Courtesy.translate asked.source)⟩

theorem translation_metrics (s : Server L) (now : Moment) (r : Request) :
    ((s.translation now r).2.status = 200 ∧
      ∃ t, Told.ofBody? (s.translation now r).2.body = some t ∧
        (s.translation now r).1.metrics = s.metrics.note t) ∨
    (s.translation now r).2.status ∈ [429, 405, 400] ∧
      (s.translation now r).1.metrics = s.metrics := by
  unfold translation
  dsimp only
  split
  · rcases translated_metrics { s with limiters := (s.limiters.allow now r.client).2 } now.id r with
      h | ⟨hstatus, h⟩
    · exact .inl h
    · exact .inr ⟨List.mem_cons_of_mem _ hstatus, h⟩
  · exact .inr ⟨List.mem_cons_self, rfl⟩

/-- What the answer to a request tells is all that the request changes in the metrics. -/
theorem handle_metrics (s : Server L) (v : Visit) :
    (s.handle v.disk v.now v.request).1.metrics =
        (Told.ofAnswer? (v, (s.handle v.disk v.now v.request).2)).elim s.metrics s.metrics.note ∧
      (Told.IsTranslation (v, (s.handle v.disk v.now v.request).2) →
        (Told.ofAnswer? (v, (s.handle v.disk v.now v.request).2)).isSome) := by
  by_cases hpath : v.request.path = "/api/translate"
  · rw [handle_translate hpath]
    rcases translation_metrics s v.now v.request with
      ⟨hstatus, t, ht, hmetrics⟩ | ⟨hstatus, hmetrics⟩
    · have htold : Told.ofAnswer? (v, (s.translation v.now v.request).2) = some t := by
        rw [Told.ofAnswer?, if_pos ⟨hpath, hstatus⟩, ht]
      rw [htold, hmetrics]
      exact ⟨rfl, fun _ => rfl⟩
    · have hnot : ¬ Told.IsTranslation (v, (s.translation v.now v.request).2) := by
        rintro ⟨-, hok⟩
        rw [hok] at hstatus
        exact absurd hstatus (by decide)
      rw [Told.ofAnswer?, if_neg hnot, hmetrics]
      exact ⟨rfl, fun h => absurd h hnot⟩
  · have hnot : ¬ Told.IsTranslation (v, (s.handle v.disk v.now v.request).2) :=
      fun h => hpath h.1
    rw [Told.ofAnswer?, if_neg hnot, handle_other hpath]
    exact ⟨rfl, fun h => absurd h hnot⟩

/-! ## All requests -/

theorem after_cons (s : Server L) (v : Visit) (vs : List Visit) :
    s.after (v :: vs) = (s.handle v.disk v.now v.request).1.after vs := by
  rw [after, List.foldl_cons, after]

theorem after_append (s : Server L) (vs ws : List Visit) :
    s.after (vs ++ ws) = (s.after vs).after ws :=
  List.foldl_append

/-- After requests, the metrics have noted what the answers tell, in their order. -/
theorem after_metrics (s : Server L) (vs : List Visit) :
    (s.after vs).metrics =
      ((s.serve vs).filterMap Told.ofAnswer?).foldl Metrics.note s.metrics := by
  induction vs generalizing s with
  | nil => rfl
  | cons v vs ih =>
    rw [after_cons, ih, (handle_metrics s v).1, serve, List.filterMap_cons]
    cases Told.ofAnswer? (v, (s.handle v.disk v.now v.request).2) <;> rfl

theorem isSome_of_mem_serve {x : Visit × Response} (hx : x ∈ s.serve vs)
    (ht : Told.IsTranslation x) : (Told.ofAnswer? x).isSome := by
  induction vs generalizing s with
  | nil => cases hx
  | cons v vs ih =>
    rw [serve] at hx
    rcases List.mem_cons.1 hx with rfl | hx
    · exact (handle_metrics s v).2 ht
    · exact ih hx

theorem getElem?_serve_eq (s : Server L) (vs : List Visit) (i : Nat) :
    (s.serve vs)[i]? =
      vs[i]?.map fun v => (v, ((s.after (vs.take i)).handle v.disk v.now v.request).2) := by
  induction vs generalizing s i with
  | nil => rfl
  | cons w vs ih =>
    cases i with
    | zero => rfl
    | succ i =>
      rw [serve, List.getElem?_cons_succ, ih, List.getElem?_cons_succ, List.take_succ_cons,
        after_cons]

theorem after_take_succ (s : Server L) (hv : vs[i]? = some v) :
    s.after (vs.take (i + 1)) = ((s.after (vs.take i)).handle v.disk v.now v.request).1 := by
  rw [List.take_add_one, hv, after_append]
  rfl

/-- A request whose answer tells nothing leaves the metrics as they are. -/
theorem metrics_take_succ {a : Response} (ha : (s.serve vs)[i]? = some (v, a))
    (hnot : ¬ Told.IsTranslation (v, a)) :
    (s.after (vs.take (i + 1))).metrics = (s.after (vs.take i)).metrics := by
  rw [getElem?_serve_eq] at ha
  obtain ⟨w, hw, hanswer⟩ := Option.map_eq_some_iff.1 ha
  cases hanswer
  rw [after_take_succ s hw, (handle_metrics _ v).1, Told.ofAnswer?, if_neg hnot]
  rfl

/-- The counters of a new service are what its clients can count: the translations that went
through, those that did not, and the diagnostics of each category, as the bodies of the translations
tell them. Every translation can be read, and any other request leaves all counters as they are.
This is so whichever requests the limiters let through. -/
theorem metrics_account (L : Library) (c : Config) (vs : List Visit) :
    let served := ({ config := c } : Server L).serve vs
    let told := served.filterMap Told.ofAnswer?
    let metrics := fun i => (({ config := c } : Server L).after (vs.take i)).metrics
    (∀ x ∈ served, Told.IsTranslation x → (Told.ofBody? x.2.body).isSome) ∧
    (metrics vs.length).results.count "ok" = told.countP (·.ok) ∧
    (metrics vs.length).results.count "failed" = told.countP (fun t => !t.ok) ∧
    (∀ category, (metrics vs.length).faults.count category =
      (told.flatMap (·.categories)).count category) ∧
    ∀ i v a, served[i]? = some (v, a) →
      v.request.path ≠ "/api/translate" ∨ a.status ∈ [429, 405, 400] →
        metrics (i + 1) = metrics i := by
  intro served told metrics
  have hmetrics : metrics vs.length = told.foldl Metrics.note {} := by
    dsimp only [metrics]
    rw [List.take_length]
    exact after_metrics _ vs
  rw [hmetrics]
  refine ⟨?_, ?_, ?_, ?_, ?_⟩
  · intro x hx ht
    have hsome := isSome_of_mem_serve hx ht
    rwa [Told.ofAnswer?, if_pos ht] at hsome
  · have hcount := Metrics.count_results_foldl_note {} told true
    simp only [beq_true] at hcount
    exact hcount.trans (Nat.zero_add _)
  · have hcount := Metrics.count_results_foldl_note {} told false
    simp only [beq_false] at hcount
    exact hcount.trans (Nat.zero_add _)
  · intro category
    rw [Metrics.count_faults_foldl_note {} told category]
    exact Nat.zero_add _
  · intro i v a ha hother
    refine metrics_take_succ ha ?_
    rintro ⟨hpath, hstatus⟩
    rcases hother with hother | hother
    · exact hother hpath
    · rw [hstatus] at hother
      exact absurd hother (by decide)

/-- A translation that fails is followed by a request that a limiter refuses at that moment, and by
one that it lets through again but that is no post. What the client reads is one failed translation
with one lexical diagnostic, and the refused requests count for nothing. -/
theorem metrics_account_refused :
    ∃ (L : Library) (c : Config) (vs : List Visit) (x : Visit × Response),
      x ∈ ({ config := c } : Server L).serve vs ∧ Told.IsTranslation x ∧
      (Told.ofBody? x.2.body).isSome ∧
      (({ config := c } : Server L).serve vs).map (·.2.status) = [200, 429, 405] ∧
      ((({ config := c } : Server L).serve vs).filterMap Told.ofAnswer?).countP
        (fun t => !t.ok) = 1 ∧
      (((({ config := c } : Server L).serve vs).filterMap Told.ofAnswer?).flatMap
        (·.categories)).count "lexical" = 1 ∧
      (({ config := c } : Server L).after (vs.take 2)).metrics =
        (({ config := c } : Server L).after (vs.take 1)).metrics ∧
      (({ config := c } : Server L).after (vs.take 3)).metrics =
        (({ config := c } : Server L).after (vs.take 2)).metrics := by
  let L : Library :=
    { Limiter := Unit, make := fun _ _ => (), allow := fun now _ => (now.time != "early", ())
      wording := fun _ => none }
  let ask (time method body : String) : Visit :=
    ⟨⟨⟨[]⟩, []⟩, ⟨"0", time⟩, { method := method, target := "/api/translate", body := body }⟩
  let first : Visit := ask "" "POST" "\x7b\"source\":\"Thank you!\"\x7d"
  let vs : List Visit := [first, ask "early" "POST" "", ask "late" "GET" ""]
  obtain ⟨hread, -, hfailed, hfaults, hother⟩ := metrics_account L {} vs
  let server : Server L := { config := {} }
  obtain ⟨hstatus, hfirst, hresult, hfault, hsecond, hthird⟩ :
      (server.serve vs).map (·.2.status) = [200, 429, 405] ∧
      Told.IsTranslation (first, (server.handle first.disk first.now first.request).2) ∧
      (server.after (vs.take vs.length)).metrics.results.count "failed" = 1 ∧
      (server.after (vs.take vs.length)).metrics.faults.count "lexical" = 1 ∧
      (server.serve vs)[1]?.any (·.2.status ∈ [429, 405, 400]) ∧
      (server.serve vs)[2]?.any (·.2.status ∈ [429, 405, 400]) := by
    decide +kernel
  obtain ⟨⟨v, a⟩, ha, hrefused⟩ := (Option.any_eq_true _ _).1 hsecond
  obtain ⟨⟨v', a'⟩, ha', hrefused'⟩ := (Option.any_eq_true _ _).1 hthird
  exact ⟨L, {}, vs, _, List.mem_cons_self, hfirst, hread _ List.mem_cons_self hfirst, hstatus,
    hfailed.symm.trans hresult, (hfaults "lexical").symm.trans hfault,
    hother 1 v a ha (.inr (of_decide_eq_true hrefused)),
    hother 2 v' a' ha' (.inr (of_decide_eq_true hrefused'))⟩

end Server

end Courtesy.Service
