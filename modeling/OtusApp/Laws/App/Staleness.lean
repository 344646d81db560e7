import OtusApp.Laws.App.ListCache
import OtusApp.Lib.History

/-!
# How old a cached list is

Any number of requests at once, answered in any way, over a clock that moves between any two calls.
The list in the cache is what the last `Set` of the run put there, at a time of its own (`Sourced`),
and what it put there is the JSON of a list that its request was given by the store (`serve_along`).

So the age of a list served from the cache is a question of the expiry alone. It is written in whole
seconds and compared with `>`: in the second in which the ten seconds end, the list is served to the
last nanosecond (`overdue_hit`).
-/

namespace OtusApp.App

open Messaging Messages Go Storage Program Transition

variable {codec : EventCodec} {cfg : Handlers.Config}

/-! ## What a request has asked for -/

/-- What goes into the cache is the JSON of a list from the store. -/
def CachesList (cfg : Handlers.Config) (log : Log Effect Effect.Result) : Effect → Prop
  | .cacheSet key raw =>
    key = Handlers.listKey ∧ ∃ msgs, ⟨.list, .ok msgs⟩ ∈ log ∧ cfg.json.messages msgs = some raw
  | _ => True

/-- An answer marked as a hit is what was found in the cache last. -/
def Found (log : Log Effect Effect.Result) : Reply → Prop
  | .http r => r.header.get "X-Cache" = "HIT" →
    ∃ raw, ⟨.cacheGet Handlers.listKey, some raw⟩ ∈ log ∧ r = Handlers.hit raw
  | _ => True

theorem Writes.lists {key : Option String} (log : Log Effect Effect.Result) (e : Effect)
    (h : Writes key e) :
    CachesList cfg log e := by
  cases e with
  | submit | await | cacheDelete | count | record => trivial
  | list | cacheGet | cacheSet => exact h.elim

section Handlers

-- as for what the requests write, the check of the text stays folded
seal validateText trimSpace

theorem createMessage_header (req : Request) :
    (Handlers.createMessage cfg req).Logs fun _ r => r.header = Handlers.jsonHeader := by
  unfold Handlers.createMessage
  split
  · rfl
  · split
    · rfl
    · refine Prog.Logs.bind (Prog.logs_true _) fun _ result _ => ?_
      split
      · rfl
      · rfl
      · refine Prog.Logs.bind (Prog.logs_true _) fun _ _ _ => ?_
        refine Prog.Logs.bind (Prog.logs_true _) fun _ _ _ => ?_
        exact Prog.Logs.bind (Prog.logs_true _) fun _ _ _ => rfl

theorem postMessages_header (req : Request) (valid exceeded : Bool) :
    (Handlers.postMessages cfg req valid exceeded).Logs fun _ r =>
      r.header = Handlers.jsonHeader := by
  unfold Handlers.postMessages Handlers.authorized Handlers.limited
  split
  · rfl
  · split
    · rfl
    · exact createMessage_header req

end Handlers

/-- An answer without the header is none from the cache. -/
theorem found_of_header {r : Response} (plain : r.header = Handlers.jsonHeader)
    (log : Log Effect Effect.Result) :
    Found log (.http r) := by
  intro isHit
  rw [plain] at isHit
  exact absurd isHit (by decide)

theorem found_miss (msgs : List Message) (log : Log Effect Effect.Result) :
    Found log (.http (Handlers.miss cfg.json msgs)) := by
  intro isHit
  have isMiss : (Handlers.miss cfg.json msgs).header.get "X-Cache" = "MISS" := Header.get_set _ _ _
  rw [isMiss] at isHit
  exact absurd isHit (by decide)

theorem listStored_along (log : Log Effect Effect.Result) :
    (Handlers.listStored cfg).Along (CachesList cfg) (fun log r => Found log (.http r)) log := by
  refine ⟨trivial, fun result => ?_⟩
  cases result with
  | error err => exact found_of_header rfl _
  | ok msgs =>
    simp only [Prog.bind]
    split
    · split
      · next raw marshalled =>
        refine ⟨⟨rfl, msgs, ?_, marshalled⟩, fun _ => found_miss msgs _⟩
        exact List.mem_append_right _ (List.mem_singleton.mpr rfl)
      · exact found_miss msgs _
    · exact found_of_header rfl _

theorem getMessages_along (exceeded : Bool) :
    (Handlers.getMessages cfg exceeded).Along (CachesList cfg)
      (fun log r => Found log (.http r)) [] := by
  unfold Handlers.getMessages Handlers.limited
  split
  · exact found_of_header rfl _
  · unfold Handlers.listMessages
    split
    · refine ⟨trivial, fun found => ?_⟩
      cases found with
      | some raw => exact fun _ => ⟨raw, List.mem_singleton.mpr rfl, rfl⟩
      | none => exact listStored_along _
    · exact listStored_along _

/-- What every request asks for, and what it is answered. -/
theorem serve_along (q : Incoming) : (serve cfg q).Along (CachesList cfg) Found [] := by
  cases q with
  | post req valid exceeded =>
    have along : (Handlers.postMessages cfg req valid exceeded).Along (CachesList cfg)
        (fun _ r => r.header = Handlers.jsonHeader) [] :=
      (postMessages_writes req valid exceeded).along Writes.lists
        (postMessages_header req valid exceeded) []
    exact Prog.Along.bind (along.mono fun log r plain => found_of_header plain log)
  | get req exceeded => exact Prog.Along.bind (getMessages_along exceeded)
  | unary md text valid =>
    have along : (Grpcserver.unaryCreate cfg.authEnabled valid md text).Along (CachesList cfg)
      (fun _ _ => True) [] :=
      (unaryCreate_writes cfg.authEnabled valid md text).along Writes.lists (Prog.logs_true _) []
    exact Prog.Along.bind (along.mono fun _ _ _ => trivial)
  | batch md texts ending valid =>
    have along : (Grpcserver.streamBatch cfg.authEnabled valid md texts ending).Along
      (CachesList cfg)
        (fun _ _ => True) [] :=
      (streamBatch_writes cfg.authEnabled valid md texts ending).along Writes.lists
        (Prog.logs_true _) []
    exact Prog.Along.bind (along.mono fun _ _ _ => trivial)

/-! ## What is in the cache -/

/-- A list that was put into the cache: by which program, and when. -/
structure Filled where
  program : Nat
  value : Bytes
  time : Instant

/-- What a step puts into the cache under the key of the list. -/
def filled : State codec × Move Incoming Answer Quiet → Option Filled
  | (v, .go i answer) =>
    match v.procs[i]? with
    | some (_, .call (.cacheSet key value) _) =>
      if key = Handlers.listKey ∧ answer ≠ .failed then some ⟨i, value, v.env.clock⟩ else none
    | _ => none
  | _ => none

/-- The lists a run has put into the cache. -/
def fills (steps : List (State codec × Move Incoming Answer Quiet)) : List Filled :=
  steps.filterMap filled

/-- The list in the cache is the last that was put there. -/
def Sourced (steps : List (State codec × Move Incoming Answer Quiet)) (cache : Tcache.Space) :
    Prop :=
  ∀ t ∈ cache, t.key = Handlers.listKey →
    ∃ f, (fills steps).getLast? = some f ∧ f.value = t.value ∧
    t.expires = (f.time + Tcache.ttl).unix

theorem Sourced.same {steps : List (State codec × Move Incoming Answer Quiet)}
    {cache cache' : Tcache.Space} (h : Sourced steps cache)
    {step : State codec × Move Incoming Answer Quiet} (none : filled step = none)
    (kept : ∀ t ∈ cache', t.key = Handlers.listKey → t ∈ cache) :
    Sourced (steps ++ [step]) cache' := by
  have fills_eq : fills (steps ++ [step]) = fills steps := by
    rw [fills, List.filterMap_append, List.filterMap_cons_none none, List.filterMap_nil,
      List.append_nil, ← fills]
  intro t mem key
  rw [fills_eq]
  exact h t (kept t mem key) key

theorem Sourced.set {steps : List (State codec × Move Incoming Answer Quiet)} {cache : Tcache.Space}
    {step : State codec × Move Incoming Answer Quiet} {f : Filled}
    (filled_eq : filled step = some f) :
    Sourced (steps ++ [step]) (Tcache.set cache Handlers.listKey f.value f.time) := by
  have fills_eq : fills (steps ++ [step]) = fills steps ++ [f] := by
    rw [fills, List.filterMap_append, List.filterMap_cons_some filled_eq,
      List.filterMap_nil, ← fills]
  intro t mem key
  rw [fills_eq]
  rcases List.mem_cons.mp mem with rfl | old
  · exact ⟨f, List.getLast?_concat, rfl, rfl⟩
  · have other := (List.mem_filter.mp old).2
    simp [key] at other

/-- What a call does to the cache. -/
inductive Cached (s t : Env codec) : Effect → Answer → Prop
  | kept (e : Effect) (answer : Answer) (unset : ∀ key value, e ≠ .cacheSet key value ∨
      answer = .failed)
      (same : t.cache = s.cache) : Cached s t e answer
  | put (key : String) (value : Bytes) (answer : Answer) (done : answer ≠ .failed)
      (set : t.cache = Tcache.set s.cache key value s.clock) :
      Cached s t (.cacheSet key value) answer
  | removed (key : String) (answer : Answer) (delete : t.cache = Tcache.delete s.cache key) :
    Cached s t (.cacheDelete key) answer

theorem cached_of_respond {s t : Env codec} {caller : Nat × Incoming} {e : Effect} {answer : Answer}
    {r : e.Result} (h : respond cfg s caller e answer = some (r, t)) : Cached s t e answer := by
  cases e with
  | submit text key =>
    simp only [respond] at h
    obtain ⟨db, _, eq⟩ := Option.map_eq_some_iff.mp h
    cases eq
    exact .kept _ _ (fun _ _ => .inl Effect.noConfusion) rfl
  | await call =>
    simp only [respond] at h
    obtain ⟨result, _, eq⟩ := Option.map_eq_some_iff.mp h
    cases eq
    exact .kept _ _ (fun _ _ => .inl Effect.noConfusion) rfl
  | cacheSet key value =>
    cases answer with
    | failed =>
      cases h
      exact .kept _ _ (fun _ _ => .inr rfl) rfl
    | ok | lost =>
      cases h
      exact .put key value _ Answer.noConfusion rfl
  | cacheDelete key =>
    cases answer with
    | failed =>
      cases h
      exact .kept _ _ (fun _ _ => .inr rfl) rfl
    | ok | lost =>
      cases h
      exact .removed key _ rfl
  | list | cacheGet | count | record =>
    cases answer <;> cases h <;> exact .kept _ _ (fun _ _ => .inl Effect.noConfusion) rfl

/-- **Where the cached list comes from.** -/
theorem sourced {w₀ w : State codec} {steps : List (State codec × Move Incoming Answer Quiet)}
    (start : (app codec cfg).init w₀) (path : (app codec cfg).Path w₀ steps w) :
    Sourced steps w.env.cache := by
  induction path with
  | nil =>
    obtain ⟨⟨_, empty, _⟩, _⟩ := start
    intro t mem
    rw [empty] at mem
    cases mem
  | @snoc steps v w mv before step ih =>
    cases Machine.stepped step with
    | arrive taken =>
      cases taken
      exact ih.same rfl fun _ mem _ => mem
    | @go i answer q e k r env runs answers =>
      cases cached_of_respond answers with
      | kept _ _ unset same =>
        refine ih.same ?_ fun t mem _ => same ▸ mem
        cases e with
        | cacheSet key value =>
          have failed := (unset key value).resolve_left (· rfl)
          simp only [filled, runs, failed, ne_eq, not_true_eq_false, and_false, if_false]
        | submit | await | list | cacheGet | cacheDelete | count | record =>
          simp only [filled, runs]
      | put key value _ done set =>
        rw [set]
        by_cases isList : key = Handlers.listKey
        · have filled_eq : filled (v, .go i answer) = some ⟨i, value, v.env.clock⟩ := by
            simp only [filled, runs, isList, done, ne_eq, not_false_eq_true, and_self, if_true]
          rw [isList]
          exact Sourced.set filled_eq
        · refine ih.same ?_ fun t mem ofList => ?_
          · simp only [filled, runs, isList, false_and, if_false]
          · rcases List.mem_cons.mp mem with rfl | old
            · exact absurd ofList isList
            · exact (List.mem_filter.mp old).1
      | removed key _ delete =>
        rw [delete]
        refine ih.same ?_ fun t mem _ => (List.mem_filter.mp mem).1
        simp only [filled, runs]
    | background moves =>
      obtain ⟨elapsed, rfl, rfl⟩ | ⟨e, db, rfl, _, _, rfl⟩ := background_cases moves
      · exact ih.same rfl fun _ mem _ => mem
      · exact ih.same rfl fun _ mem _ => mem

/-! ## Hits -/

/-- No request looks for the list, while one is in the cache, in the second in which its ten seconds
end and later in that second than it was put there in its own. -/
def Timely (steps : List (State codec × Move Incoming Answer Quiet)) : Prop :=
  ∀ (k : Nat) v i answer q rest, steps[k]? = some (v, .go i answer) →
    v.procs[i]? = some (q, .call (.cacheGet Handlers.listKey) rest) →
    (∃ t ∈ v.env.cache, t.key = Handlers.listKey) → ∀ f, (fills (steps.take k)).getLast? = some f →
    v.env.clock.unix = f.time.unix + Tcache.ttl.seconds →
    v.env.clock % Duration.second ≤ f.time % Duration.second

/-- At step `k` program `i` is given a list from the cache: what `f` put there, which its program
was given as the list of the store before. -/
structure Serves (cfg : Handlers.Config) (steps : List (State codec × Move Incoming Answer Quiet))
    (k i : Nat) (f : Filled) : Prop where
  found : (machine codec cfg).AskedAt steps k i ⟨.cacheGet Handlers.listKey, some f.value⟩
  last : (fills (steps.take k)).getLast? = some f
  listed : ∃ j msgs, (machine codec cfg).AskedAt (steps.take k) j f.program ⟨.list, .ok msgs⟩ ∧
    cfg.json.messages msgs = some f.value

/-- An age in nanoseconds, by the whole seconds and the rest of two readings. -/
theorem age_le {now earlier : Instant} (fresh : ¬ now.unix > (earlier + Tcache.ttl).unix)
    (timely : now.unix = earlier.unix + Tcache.ttl.seconds →
      now % Duration.second ≤ earlier % Duration.second) :
    now - earlier ≤ Tcache.ttl := by
  have whole : ∀ a b : Int, ¬ a / 1000000000 > (b + 10000000000) / 1000000000 →
      (a / 1000000000 = b / 1000000000 + 10 → a % 1000000000 ≤ b % 1000000000) →
      a - b ≤ 10000000000 := by
    intro a b _ _
    omega
  exact whole now earlier fresh timely

theorem age_lt {now earlier : Instant} (fresh : ¬ now.unix > (earlier + Tcache.ttl).unix) :
    now - earlier < Tcache.ttl + Duration.second := by
  have whole : ∀ a b : Int, ¬ a / 1000000000 > (b + 10000000000) / 1000000000 →
      a - b < 11000000000 := by
    intro a b _
    omega
  exact whole now earlier fresh

/-- A list that is found in the cache has not expired. -/
theorem get_some {space : Tcache.Space} {key : String} {now : Instant} {raw : Bytes}
    (h : Tcache.get space key now = some raw) :
    ∃ t ∈ space, t.key = key ∧ t.value = raw ∧ ¬ now.unix > t.expires := by
  unfold Tcache.get at h
  split at h
  · cases h
  · next t found =>
    split at h
    · cases h
    · next fresh =>
      have sameKey := List.find?_some found
      exact ⟨t, List.mem_of_find?_eq_some found, of_decide_eq_true sameKey,
        Option.some.inj h, fresh⟩

section Runs

variable {w₀ w : State codec} {steps : List (State codec × Move Incoming Answer Quiet)}

/-- What was put into the cache was the list of the store to its program. -/
theorem listed (start : (app codec cfg).init w₀) (path : (app codec cfg).Path w₀ steps w)
    {f : Filled} (mem : f ∈ fills steps) :
    ∃ j msgs, (machine codec cfg).AskedAt steps j f.program ⟨.list, .ok msgs⟩ ∧
    cfg.json.messages msgs = some f.value := by
  obtain ⟨⟨v, mv⟩, found, filled_eq⟩ := List.mem_filterMap.mp mem
  obtain ⟨n, entry⟩ := List.mem_iff_getElem?.mp found
  cases mv with
  | arrive | background => cases filled_eq
  | go i answer =>
    simp only [filled] at filled_eq
    split at filled_eq
    · next q key value rest runs =>
      obtain ⟨_, eq⟩ := Option.ite_none_right_eq_some.mp filled_eq
      cases eq
      obtain ⟨log, along, answered⟩ := Machine.past serve_along start (path.before entry) i q _ runs
      obtain ⟨_, msgs, inLog, marshalled⟩ := along.1
      obtain ⟨j, asked⟩ := answered _ inLog
      have later := asked.later (steps.drop n)
      rw [List.take_append_drop] at later
      exact ⟨j, msgs, later, marshalled⟩
    · cases filled_eq

/-- What is found in the cache at some step. -/
theorem served (start : (app codec cfg).init w₀) (path : (app codec cfg).Path w₀ steps w)
    {k i : Nat} {raw : Bytes}
    (asked : (machine codec cfg).AskedAt steps k i ⟨.cacheGet Handlers.listKey, some raw⟩) :
    ∃ v answer q rest f, steps[k]? = some (v, .go i answer) ∧
      v.procs[i]? = some (q, .call (.cacheGet Handlers.listKey) rest) ∧
      (∃ t ∈ v.env.cache, t.key = Handlers.listKey) ∧ Serves cfg steps k i f ∧ f.value = raw ∧
      ¬ v.env.clock.unix > (f.time + Tcache.ttl).unix := by
  obtain ⟨v, answer, q, rest, t, entry, runs, answers⟩ := asked
  have hit : Tcache.get v.env.cache Handlers.listKey v.env.clock = some raw := by
    cases answer with
    | ok => exact (Prod.mk.inj (Option.some.inj answers)).1
    | failed | lost => cases answers
  obtain ⟨tuple, mem, key, value, fresh⟩ := get_some hit
  have before := path.before entry
  obtain ⟨f, last, value', expires⟩ := sourced start before tuple mem key
  obtain rfl : f.value = raw := value'.trans value
  refine ⟨v, answer, q, rest, f, entry, runs, ⟨tuple, mem, key⟩, ⟨?_, last, ?_⟩, rfl, ?_⟩
  · exact ⟨v, answer, q, rest, t, entry, runs, answers⟩
  · exact listed start before (List.mem_of_getLast? last)
  · rw [← expires]
    exact fresh

/-- An answer from the cache was found there at a step of its request. -/
theorem hit_asked (start : (app codec cfg).init w₀) (path : (app codec cfg).Path w₀ steps w)
    {i : Nat} {q : Incoming} {r : Response} (replied : w.procs[i]? = some (q, .ret (.http r)))
    (isHit : r.header.get "X-Cache" = "HIT") :
    ∃ k, (machine codec cfg).AskedAt steps k i ⟨.cacheGet Handlers.listKey, some r.body⟩ := by
  obtain ⟨log, found, answered⟩ := Machine.past serve_along start path i q _ replied
  obtain ⟨raw, mem, rfl⟩ := found isHit
  exact answered _ mem

/-- In any run an answer from the cache is less than eleven seconds old. -/
theorem hit_under_eleven (start : (app codec cfg).init w₀) (path : (app codec cfg).Path w₀ steps w)
    {i : Nat} {q : Incoming} {r : Response} (replied : w.procs[i]? = some (q, .ret (.http r)))
    (isHit : r.header.get "X-Cache" = "HIT") :
    ∃ k v answer f, steps[k]? = some (v, .go i answer) ∧ Serves cfg steps k i f ∧ r.body = f.value ∧
      v.env.clock - f.time < Tcache.ttl + Duration.second := by
  obtain ⟨k, asked⟩ := hit_asked start path replied isHit
  obtain ⟨v, answer, _, _, f, entry, _, _, serves, value, fresh⟩ := served start path asked
  exact ⟨k, v, answer, f, entry, serves, value.symm, age_lt fresh⟩

/-- **Hits are fresh.** In every run in which the list is looked for in time, an answer from the
cache is the JSON of a list of the store that was put there ten seconds before at most. -/
theorem hit_within_ttl (start : (app codec cfg).init w₀) (path : (app codec cfg).Path w₀ steps w)
    (timely : Timely steps) {i : Nat} {q : Incoming} {r : Response}
    (replied : w.procs[i]? = some (q, .ret (.http r))) (isHit : r.header.get "X-Cache" = "HIT") :
    ∃ k v answer f, steps[k]? = some (v, .go i answer) ∧ Serves cfg steps k i f ∧ r.body = f.value ∧
      v.env.clock - f.time ≤ Tcache.ttl := by
  obtain ⟨k, asked⟩ := hit_asked start path replied isHit
  obtain ⟨v, answer, q', rest, f, entry, runs, inCache, serves, value, fresh⟩ :=
    served start path asked
  refine ⟨k, v, answer, f, entry, serves, value.symm, age_le fresh ?_⟩
  exact timely k v i answer q' rest entry runs inCache f serves.last

end Runs

/-- A test for `Timely`. -/
def timely (steps : List (State plainCodec × Move Incoming Answer Quiet)) : Bool :=
  (List.range steps.length).all fun k =>
    match steps[k]?, (fills (steps.take k)).getLast? with
    | some (v, _), some f => v.env.clock.unix ≠ f.time.unix + Tcache.ttl.seconds ∨
        v.env.clock % Duration.second ≤ f.time % Duration.second
    | _, _ => true

theorem timely_sound {steps : List (State plainCodec × Move Incoming Answer Quiet)}
    (h : timely steps = true) :
    Timely steps := by
  intro k v i answer q rest entry _ _ f last same
  have bound := (List.getElem?_eq_some_iff.mp entry).1
  have checked := List.all_eq_true.mp h k (List.mem_range.mpr bound)
  simp only [entry, last, decide_eq_true_eq] at checked
  exact checked.resolve_left (· same)

/-- The list is put into the cache, and read again after `elapsed` nanoseconds. -/
def readAgain (elapsed : Nat) : List (Move Incoming Answer Quiet) :=
  [.arrive (.get getList false), .go 0 .ok, .go 0 .ok, .go 0 .ok, .background (.tick elapsed),
    .arrive (.get getList false), .go 1 .ok]

/-- The steps of that run. -/
def rereading (elapsed : Nat) : List (State plainCodec × Move Incoming Answer Quiet) :=
  System.history (machine plainCodec cachedApp).step startedApp (readAgain elapsed)

theorem hit_within_ttl_tenth :
    ∃ w r, (app plainCodec cachedApp).Path startedApp (rereading 10000000000) w ∧
    Timely (rereading 10000000000) ∧
      w.procs[1]? = some (.get getList false, .ret (.http r)) ∧ r.header.get "X-Cache" = "HIT" ∧
      ∃ k v answer f, (rereading 10000000000)[k]? = some (v, .go 1 answer) ∧
        Serves cachedApp (rereading 10000000000) k 1 f ∧ r.body = f.value ∧
        v.env.clock - f.time ≤ Tcache.ttl := by
  have replayed : ∃ w r, System.replay (machine plainCodec cachedApp).step startedApp
    (readAgain 10000000000) = some w ∧
      w.procs[1]? = some (.get getList false, .ret (.http r)) ∧ r.header.get "X-Cache" = "HIT" :=
    ⟨_, _, rfl, rfl, by decide⟩
  obtain ⟨w, r, hw, replied, isHit⟩ := replayed
  have path : (app plainCodec cachedApp).Path startedApp (rereading 10000000000) w :=
    System.Path.of_replay hw
  have inTime : Timely (rereading 10000000000) := timely_sound (by decide)
  exact ⟨w, r, path, inTime, replied, isHit,
    hit_within_ttl ⟨fresh_startedApp, rfl, rfl⟩ path inTime replied isHit⟩

/-- **An overdue hit.** Nine tenths of a second after its ten seconds have ended, the list is still
served: it was put into the cache once, at the beginning. -/
theorem overdue_hit :
    ∃ w r v f, (app plainCodec cachedApp).init startedApp ∧
      (app plainCodec cachedApp).Path startedApp (rereading 10900000000) w ∧
      w.procs[1]? = some (.get getList false, .ret (.http r)) ∧ r.header.get "X-Cache" = "HIT" ∧
      (rereading 10900000000)[6]? = some (v, .go 1 .ok) ∧ fills (rereading 10900000000) = [f] ∧
      Tcache.ttl < v.env.clock - f.time := by
  have replayed : ∃ w r v f,
      System.replay (machine plainCodec cachedApp).step startedApp
        (readAgain 10900000000) = some w ∧
      w.procs[1]? = some (.get getList false, .ret (.http r)) ∧ r.header.get "X-Cache" = "HIT" ∧
      (rereading 10900000000)[6]? = some (v, .go 1 .ok) ∧ fills (rereading 10900000000) = [f] ∧
      Tcache.ttl < v.env.clock - f.time :=
    ⟨_, _, _, _, rfl, rfl, by decide, rfl, rfl, by decide⟩
  obtain ⟨w, r, v, f, hw, replied, isHit, entry, once, old⟩ := replayed
  exact ⟨w, r, v, f, ⟨fresh_startedApp, rfl, rfl⟩, System.Path.of_replay hw, replied, isHit,
    entry, once, old⟩

end OtusApp.App
