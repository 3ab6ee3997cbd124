import Mathlib.Data.List.Forall2
import Courtesy.Service.Server

/-!
# Admission of translation requests

The service answers one request after the other (`Server.serve`). A translation request changes the
limiter of its own host and no other, and what it is answered depends on that limiter, its method,
its body and the configuration (`Server.handle_limiter`, `Server.handle_answers`). So, whatever a
limiter does, a host is answered as if there were no other requests (`Server.filter_serve`). Main
statement: if limiters never refill, a translation request is refused exactly if the host has used
up its burst, and whatever other hosts ask and whatever is asked on other paths makes no difference
to a host.
-/

namespace Courtesy.Service

/-- A request with the state of the disk and the moment at which it arrives. -/
structure Visit where
  disk : Disk
  now : Moment
  request : Request

/-- Whether a visit is a translation request of a host, whatever its method and its body are. -/
def Visit.isFrom (host : String) (v : Visit) : Bool :=
  v.request.path == "/api/translate" && v.request.client == host

/-- Two answers that differ at most in the id that they bear. -/
structure Response.SameButId (id id' : String) (a b : Response) : Prop where
  status : a.status = b.status
  contentType : a.contentType = b.contentType
  allow : a.allow = b.allow
  body : a.body = b.body ∨ ∃ front back,
    a.body = front ++ Json.quoted id ++ back ∧ b.body = front ++ Json.quoted id' ++ back

theorem Response.SameButId.refl (id id' : String) (a : Response) : a.SameButId id id' a :=
  ⟨rfl, rfl, rfl, .inl rfl⟩

namespace Library

/-- A limiter that is made of a rate and a burst lets exactly the first calls through, as many as
the burst, whenever they come. -/
def NeverRefills (L : Library) (rate : Binary64) (burst : Int) : Prop :=
  ∀ (calls : List Moment) (now : Moment),
    (L.allow now (L.behind (L.make rate burst) calls)).1 = decide ((calls.length : Int) < burst)

theorem behind_cons (L : Library) (l : L.Limiter) (now : Moment) (calls : List Moment) :
    L.behind l (now :: calls) = L.behind (L.allow now l).2 calls := rfl

theorem behind_concat (L : Library) (l : L.Limiter) (calls : List Moment) (now : Moment) :
    L.behind l (calls ++ [now]) = (L.allow now (L.behind l calls)).2 := List.foldl_concat ..

theorem still_neverRefills (rate : Binary64) (burst : Int) : still.NeverRefills rate burst := by
  have hleft : ∀ (calls : List Moment) (left : Int),
      calls.foldl (fun left _ => left - 1) left = left - calls.length := by
    intro calls
    induction calls with
    | nil => exact fun left => (Int.sub_zero left).symm
    | cons now calls ih =>
      intro left
      rw [List.foldl_cons, ih, List.length_cons]
      omega
  intro calls now
  show decide (0 < calls.foldl (fun left _ => left - 1) burst) = _
  rw [hleft, decide_eq_decide]
  omega

end Library

theorem HostLimiters.limiter_keep {L : Library} (ls : HostLimiters L) (host other : String)
    (l : L.Limiter) :
    (ls.keep host l).limiter other = if other = host then l else ls.limiter other := by
  unfold limiter keep
  dsimp only
  split
  · rfl
  · rfl

namespace Server

variable {L : Library} {s s' : Server L} {c : Config} {d : Disk} {now : Moment} {r r' : Request}
  {id id' host : String} {vs ws : List Visit} {v : Visit} {i : Nat} {allowed : Bool}

/-- Answers requests one after the other. -/
def serve : Server L → List Visit → List (Visit × Response)
  | _, [] => []
  | s, v :: vs =>
    (v, (s.handle v.disk v.now v.request).2) :: serve (s.handle v.disk v.now v.request).1 vs

/-- What a translation request is answered once its limiter has decided. -/
def verdict (L : Library) (c : Config) (allowed : Bool) (id : String) (r : Request) : Response :=
  if allowed then (({ config := c } : Server L).translated id r).2
  else refusal 429 "rate limit exceeded"

/-! ## Translations -/

/-- A request that is let through counts in the metrics alone, and its answer does not depend on
what was asked before. -/
theorem translated_cases (s : Server L) (id : String) (r : Request) :
    (s.translated id r).1.config = s.config ∧ (s.translated id r).1.limiters = s.limiters ∧
      (s.translated id r).2 = (({ config := s.config } : Server L).translated id r).2 := by
  unfold translated
  split
  · exact ⟨rfl, rfl, rfl⟩
  · split
    · exact ⟨rfl, rfl, rfl⟩
    · split
      · exact ⟨rfl, rfl, rfl⟩
      · exact ⟨rfl, rfl, rfl⟩

theorem status_translated (s : Server L) (id : String) (r : Request) :
    (s.translated id r).2.status ≠ 429 := by
  unfold translated
  split
  · show (405 : Nat) ≠ 429
    omega
  · split
    · show (400 : Nat) ≠ 429
      omega
    · split
      · show (400 : Nat) ≠ 429
        omega
      · show (200 : Nat) ≠ 429
        omega

theorem render_object_text (key text : String) (field : String × Json)
    (fields : List (String × Json)) :
    (Json.object ((key, .text text) :: field :: fields)).render =
      ("\x7b" ++ Json.quoted key ++ ":") ++ Json.quoted text ++
        ("," ++ ",".intercalate (Json.renderFields (field :: fields)) ++ "\x7d") := by
  obtain ⟨key', value⟩ := field
  have htext : (Json.text text).render = Json.quoted text := by rw [Json.render]
  rw [Json.render, Json.renderFields, Json.renderFields, htext, String.intercalate_cons_cons]
  simp only [String.append_assoc]

/-- The id stands in one place of a translation. -/
theorem render_translationJson (options : Target.Options) (run : Run) :
    ∃ front back, ∀ id, (translationJson id options run).render = front ++ Json.quoted id ++ back :=
  ⟨_, _, fun id => render_object_text "id" id _ _⟩

theorem translated_sameButId (s : Server L) (hmethod : r.method = r'.method)
    (hbody : r.body = r'.body) :
    (s.translated id r).2.SameButId id id' (s.translated id' r').2 := by
  unfold translated
  rw [hmethod, hbody]
  split
  · exact .refl id id' _
  · split
    · exact .refl id id' _
    · rename_i asked hasked
      split
      · exact .refl id id' _
      · obtain ⟨front, back, hrender⟩ :=
          render_translationJson (s.options asked) (Courtesy.translate asked.source)
        have hbody : ∀ id, (reply 200 (translationJson id (s.options asked)
            (Courtesy.translate asked.source))).body =
              front ++ Json.quoted id ++ (back ++ "\n") := by
          intro id
          unfold reply
          rw [hrender, String.append_assoc]
        exact ⟨rfl, rfl, rfl, .inr ⟨front, back ++ "\n", hbody id, hbody id'⟩⟩

theorem status_verdict : (verdict L c allowed id r).status = 429 ↔ allowed = false := by
  unfold verdict
  cases allowed with
  | false => exact ⟨fun _ => rfl, fun _ => rfl⟩
  | true => exact ⟨fun h => absurd h (status_translated _ id r), fun h => nomatch h⟩

theorem verdict_sameButId (hmethod : r.method = r'.method) (hbody : r.body = r'.body) :
    (verdict L c allowed id r).SameButId id id' (verdict L c allowed id' r') := by
  unfold verdict
  split
  · exact translated_sameButId _ hmethod hbody
  · exact .refl id id' _

/-! ## One request -/

theorem ofPath_eq_translate_iff {path : String} :
    Route.ofPath path = .translate ↔ path = "/api/translate" := by
  constructor
  · intro h
    unfold Route.ofPath at h
    split at h
    · cases h
    · split at h
      · rename_i hpath
        exact beq_iff_eq.1 hpath
      · repeat' split at h
        all_goals cases h
  · rintro rfl
    decide

theorem handle_translate (hpath : r.path = "/api/translate") :
    s.handle d now r = s.translation now r := by
  have hstay : redirect? "/api/translate" = none := by decide +kernel
  unfold handle
  rw [hpath, hstay, ofPath_eq_translate_iff.2 rfl]
  rfl

theorem handle_other (hpath : r.path ≠ "/api/translate") : (s.handle d now r).1 = s := by
  unfold handle
  split
  · rfl
  · have hroute : Route.ofPath r.path ≠ .translate := fun h => hpath (ofPath_eq_translate_iff.1 h)
    cases h : Route.ofPath r.path with
    | translate => exact absurd h hroute
    | health => rfl
    | examples => rfl
    | description => rfl
    | metrics => rfl
    | generated path => rfl
    | nothing => rfl

theorem translation_cases (s : Server L) (now : Moment) (r : Request) :
    (s.translation now r).1.config = s.config ∧
      (s.translation now r).1.limiters =
        s.limiters.keep r.client (L.allow now (s.limiters.limiter r.client)).2 ∧
      (s.translation now r).2 =
        verdict L s.config (L.allow now (s.limiters.limiter r.client)).1 now.id r := by
  unfold translation verdict HostLimiters.allow
  dsimp only
  split
  · exact translated_cases { s with limiters := s.limiters.keep r.client _ } now.id r
  · exact ⟨rfl, rfl, rfl⟩

theorem isFrom_iff :
    v.isFrom host = true ↔ v.request.path = "/api/translate" ∧ v.request.client = host := by
  simp [Visit.isFrom]

theorem handle_config (s : Server L) (v : Visit) :
    (s.handle v.disk v.now v.request).1.config = s.config := by
  by_cases hpath : v.request.path = "/api/translate"
  · rw [handle_translate hpath]
    exact (translation_cases s v.now v.request).1
  · rw [handle_other hpath]

/-- A translation request is a call to the limiter of its host, and no request changes
another one. -/
theorem handle_limiter (s : Server L) (v : Visit) (host : String) :
    (s.handle v.disk v.now v.request).1.limiters.limiter host =
      if v.isFrom host then (L.allow v.now (s.limiters.limiter host)).2
      else s.limiters.limiter host := by
  by_cases hpath : v.request.path = "/api/translate"
  · rw [handle_translate hpath, (translation_cases s v.now v.request).2.1,
      HostLimiters.limiter_keep]
    by_cases hhost : host = v.request.client
    · rw [if_pos hhost, if_pos (isFrom_iff.2 ⟨hpath, hhost.symm⟩), hhost]
    · rw [if_neg hhost, if_neg fun h => hhost (isFrom_iff.1 h).2.symm]
  · rw [handle_other hpath, if_neg fun h => hpath (isFrom_iff.1 h).1]

theorem handle_answers (hfrom : v.isFrom host = true) :
    (s.handle v.disk v.now v.request).2 =
      verdict L s.config (L.allow v.now (s.limiters.limiter host)).1 v.now.id v.request := by
  obtain ⟨hpath, rfl⟩ := isFrom_iff.1 hfrom
  rw [handle_translate hpath]
  exact (translation_cases s v.now v.request).2.2

/-! ## All requests -/

/-- The moments at which a host asks for translations. -/
def calls (host : String) (vs : List Visit) : List Moment :=
  (vs.filter (Visit.isFrom host)).map (·.now)

theorem getElem?_serve (hv : vs[i]? = some v) (hfrom : v.isFrom host = true) :
    (s.serve vs)[i]? = some (v, verdict L s.config
      (L.allow v.now (L.behind (s.limiters.limiter host) (calls host (vs.take i)))).1
      v.now.id v.request) := by
  induction vs generalizing s i with
  | nil => cases hv
  | cons w vs ih =>
    rw [serve]
    cases i with
    | zero =>
      cases hv
      rw [handle_answers hfrom]
      rfl
    | succ i =>
      rw [List.getElem?_cons_succ] at hv ⊢
      rw [ih hv, handle_config, handle_limiter, calls, calls, List.take_succ_cons, List.filter_cons]
      split
      · rw [List.map_cons, Library.behind_cons]
      · rfl

/-- A host is answered as if there were no other requests. -/
theorem filter_serve (hconfig : s.config = s'.config)
    (hlimiter : s.limiters.limiter host = s'.limiters.limiter host) (vs : List Visit) :
    (s.serve vs).filter (fun x => x.1.isFrom host) = s'.serve (vs.filter (Visit.isFrom host)) := by
  induction vs generalizing s s' with
  | nil => rfl
  | cons v vs ih =>
    rw [serve, List.filter_cons]
    dsimp only
    by_cases hfrom : v.isFrom host = true
    · rw [if_pos hfrom, List.filter_cons_of_pos hfrom, serve, handle_answers hfrom,
        handle_answers hfrom, hconfig, hlimiter]
      congr 1
      refine ih ?_ ?_
      · rw [handle_config, handle_config, hconfig]
      · rw [handle_limiter, handle_limiter, hlimiter]
    · rw [if_neg hfrom, List.filter_cons_of_neg hfrom]
      refine ih ?_ ?_
      · rw [handle_config, hconfig]
      · rw [handle_limiter, if_neg hfrom, hlimiter]

/-- Requests of one host that are made at different moments. As limiters never refill, only the
number of the calls that came before counts. -/
theorem forall₂_serve {rate : Binary64} {burst : Int} {before before' : List Moment}
    (hstill : L.NeverRefills rate burst)
    (hsame : vs.Forall₂ (fun v w =>
      v.request.method = w.request.method ∧ v.request.body = w.request.body) ws)
    (hvs : ∀ v ∈ vs, v.isFrom host = true) (hws : ∀ w ∈ ws, w.isFrom host = true)
    (hconfig : s.config = s'.config) (hbefore : before.length = before'.length)
    (hs : s.limiters.limiter host = L.behind (L.make rate burst) before)
    (hs' : s'.limiters.limiter host = L.behind (L.make rate burst) before') :
    (s.serve vs).Forall₂ (fun x y => x.2.SameButId x.1.now.id y.1.now.id y.2) (s'.serve ws) := by
  induction hsame generalizing s s' before before' with
  | nil => exact .nil
  | @cons v w vs ws hvw _ ih =>
    rw [List.forall_mem_cons] at hvs hws
    rw [serve, serve]
    refine .cons ?_ (@ih _ _ (before ++ [v.now]) (before' ++ [w.now]) hvs.2 hws.2 ?_ ?_ ?_ ?_)
    · rw [handle_answers hvs.1, handle_answers hws.1, hconfig, hs, hs', hstill, hstill, hbefore]
      exact verdict_sameButId hvw.1 hvw.2
    · rw [handle_config, handle_config, hconfig]
    · rw [List.length_append, List.length_append, hbefore]
      rfl
    · rw [handle_limiter, if_pos hvs.1, hs, Library.behind_concat]
    · rw [handle_limiter, if_pos hws.1, hs', Library.behind_concat]

/-- Of a service with limiters that never refill: a translation request is refused for its number
exactly if the burst is used up by earlier ones of the same host. In two runs in which a host asks
for the same translations it gets the same answers, up to the ids, whatever else is asked before,
between and behind. -/
theorem hosts_isolated (L : Library) (c : Config)
    (hstill : L.NeverRefills c.server.rateLimit c.server.burst) :
    (∀ (vs : List Visit) i v, vs[i]? = some v → v.request.path = "/api/translate" →
      ∃ a, (({ config := c } : Server L).serve vs)[i]? = some (v, a) ∧
        (a.status = 429 ↔
          c.server.burst ≤ ((vs.take i).countP (Visit.isFrom v.request.client) : Int))) ∧
    ∀ host (vs ws : List Visit),
      (vs.filter (Visit.isFrom host)).Forall₂
        (fun v w => v.request.method = w.request.method ∧ v.request.body = w.request.body)
        (ws.filter (Visit.isFrom host)) →
      ((({ config := c } : Server L).serve vs).filter fun x => x.1.isFrom host).Forall₂
        (fun x y => x.2.SameButId x.1.now.id y.1.now.id y.2)
        ((({ config := c } : Server L).serve ws).filter fun x => x.1.isFrom host) := by
  -- A host that has not asked yet has a limiter without calls.
  have hnew : ∀ host, ({ config := c } : Server L).limiters.limiter host =
      L.behind (L.make c.server.rateLimit c.server.burst) [] := fun _ => rfl
  refine ⟨?_, ?_⟩
  · intro vs i v hv hpath
    refine ⟨_, getElem?_serve hv (isFrom_iff.2 ⟨hpath, rfl⟩), ?_⟩
    rw [status_verdict, hnew]
    show (L.allow v.now (L.behind (L.make c.server.rateLimit c.server.burst) _)).1 = false ↔ _
    rw [hstill, decide_eq_false_iff_not, Int.not_lt, calls, List.length_map,
      ← List.countP_eq_length_filter]
  · intro host vs ws hsame
    rw [filter_serve rfl rfl, filter_serve rfl rfl]
    exact forall₂_serve hstill hsame (fun _ h => (List.mem_filter.1 h).2)
      (fun _ h => (List.mem_filter.1 h).2) rfl rfl (hnew host) (hnew host)

/-- With a burst of one, the second translation request of a host is refused although another host
was let through in between, and the host is answered as it is when it asks alone. -/
theorem hosts_isolated_sample :
    ∃ (c : Config) (vs : List Visit) (v : Visit) (a : Response),
      c.server.burst = 1 ∧ Library.still.NeverRefills c.server.rateLimit c.server.burst ∧
      vs.map (fun v => (v.request.remote, v.request.target)) =
        [("10.0.0.1:5", "/api/translate"), ("10.0.0.2:5", "/api/translate"),
          ("10.0.0.1:6", "/api/health"), ("10.0.0.1:7", "/api/translate?again")] ∧
      (({ config := c } : Server).serve vs)[3]? = some (v, a) ∧ a.status = 429 ∧
      ((({ config := c } : Server).serve vs).filter fun x => x.1.isFrom "10.0.0.1").Forall₂
        (fun x y => x.2.SameButId x.1.now.id y.1.now.id y.2)
        ((({ config := c } : Server).serve (vs.filter (Visit.isFrom "10.0.0.1"))).filter
          fun x => x.1.isFrom "10.0.0.1") := by
  let c : Config := { server := { burst := 1 } }
  let ask (remote target : String) : Visit :=
    ⟨⟨⟨[]⟩, []⟩, ⟨"0", ""⟩, { method := "GET", target := target, remote := remote }⟩
  let vs : List Visit := [ask "10.0.0.1:5" "/api/translate", ask "10.0.0.2:5" "/api/translate",
    ask "10.0.0.1:6" "/api/health", ask "10.0.0.1:7" "/api/translate?again"]
  have hstill := Library.still_neverRefills c.server.rateLimit c.server.burst
  obtain ⟨hrefused, hsame⟩ := hosts_isolated .still c hstill
  obtain ⟨a, ha, hstatus⟩ := hrefused vs 3 (ask "10.0.0.1:7" "/api/translate?again") rfl
    (by decide +kernel)
  refine ⟨c, vs, _, a, rfl, hstill, rfl, ha, hstatus.2 (by decide +kernel), hsame _ _ _ ?_⟩
  rw [List.filter_filter]
  simp [List.forall₂_same]

end Server

end Courtesy.Service
