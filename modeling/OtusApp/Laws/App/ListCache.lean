import OtusApp.Laws.App.Store

/-!
# The list in the cache

`GET /messages` answers with the list in the cache while it has not expired. That is the list of the
store as long as every new message takes the list out of the cache, and `createMessage` of the HTTP
front end does. The gRPC front end does not: what it adds is missing from every answer until the
list expires (`stale_hit`). Runs in which it adds a message only while no list is served are
coherent (`list_coherent`).

Requests come one at a time here, and every call they make succeeds.
-/

namespace OtusApp.App

open Messaging Messages Go Storage Program Transition

variable {codec : EventCodec} {cfg : Handlers.Config}

/-! ## The cache -/

theorem unix_mono {now later : Instant} (h : now ≤ later) : now.unix ≤ later.unix :=
  Int.ediv_le_ediv (by decide) h

/-- What is served later from an unchanged cache is served now. -/
theorem get_of_later {space : Tcache.Space} {key : String} {now later : Instant} {raw : Bytes}
    (h : now ≤ later) (hit : Tcache.get space key later = some raw) :
    Tcache.get space key now = some raw := by
  unfold Tcache.get at hit ⊢
  split at hit
  · cases hit
  · split at hit
    · cases hit
    · next t found fresh =>
      have le := unix_mono h
      rw [if_neg (by omega)]
      exact hit

theorem get_set (space : Tcache.Space) (key : String) (value raw : Bytes) (now later : Instant)
    (hit : Tcache.get (Tcache.set space key value now) key later = some raw) : raw = value := by
  simp only [Tcache.get, Tcache.set, List.find?_cons, decide_true] at hit
  split at hit
  · cases hit
  · exact (Option.some.inj hit).symm

theorem get_delete (space : Tcache.Space) (key : String) (now : Instant) :
    Tcache.get (Tcache.delete space key) key now = none := by
  have none : (Tcache.delete space key).find? (fun t => t.key = key) = none := by
    refine List.find?_eq_none.mpr fun t mem => ?_
    simpa using (List.mem_filter.mp mem).2
  simp only [Tcache.get, none]

/-! ## Runs of one request at a time -/

/-- Every statement of the database succeeds. -/
def Succeeds : Env codec → Quiet → Prop
  | _, .store (.exec _ answer) => answer = .ok
  | _, .store (.crash _) => False
  | _, _ => True

/-- A message that came in over gRPC is committed only while no list is served from the cache. -/
def Unlisted : Env codec → Quiet → Prop
  | s, .store (.exec j answer) => ∀ i q t, s.origin[j]? = some (i, q) → q.rpc = true →
      step codec s.db (.exec j answer) = some t → t.tables.messages ≠ s.db.tables.messages →
      Tcache.get s.cache Handlers.listKey s.clock = none
  | _, _ => True

/-- The limiter lets a request for the list pass. -/
def Passes : Incoming → Prop
  | .get _ exceeded => exceeded = false
  | _ => True

/-- The runs in which no two requests overlap and all their calls succeed. -/
def sequential (codec : EventCodec) (cfg : Handlers.Config) :
    System (State codec) (Move Incoming Answer Quiet) :=
  (machine codec cfg).oneByOne Fresh Passes (· = .ok) Succeeds

/-- Those of them that meet `Unlisted` throughout. -/
def guarded (codec : EventCodec) (cfg : Handlers.Config) :
    System (State codec) (Move Incoming Answer Quiet) :=
  (machine codec cfg).oneByOne Fresh Passes (· = .ok) fun s b => Succeeds s b ∧ Unlisted s b

/-! ## Between two calls -/

/-- No transaction is open. -/
structure Settled (s : Env codec) : Prop where
  consistent : Consistent s.db
  finished : ∀ c ∈ s.db.calls, ∃ result, c.phase = .finished result
  origin : s.origin.length = s.db.calls.length

/-- A list that is served from the cache is the list of the store. -/
def Coherent (cfg : Handlers.Config) (s : Env codec) : Prop :=
  cfg.cached = true → ∀ raw, Tcache.get s.cache Handlers.listKey s.clock = some raw →
    cfg.json.messages (Storage.list s.db.tables.messages) = some raw

/-- The same messages and the same cache, at the same time or later. -/
structure Still (s t : Env codec) : Prop where
  messages : t.db.tables.messages = s.db.tables.messages
  cache : t.cache = s.cache
  clock : s.clock ≤ t.clock

theorem Still.refl (s : Env codec) : Still s s := ⟨rfl, rfl, Int.le_refl _⟩

theorem Still.trans {s t r : Env codec} (h : Still s t) (h' : Still t r) : Still s r :=
  ⟨h'.messages.trans h.messages, h'.cache.trans h.cache, Int.le_trans h.clock h'.clock⟩

theorem Coherent.still {s t : Env codec} (h : Coherent cfg s) (still : Still s t) :
    Coherent cfg t := by
  intro cached raw hit
  rw [still.cache] at hit
  rw [still.messages]
  exact h cached raw (get_of_later still.clock hit)

/-- With no transaction open, nothing changes between two calls. -/
theorem Settled.still {s t : Env codec} {b : Quiet} (h : Settled s) (succeeds : Succeeds s b)
    (moves : background s b = some t) : Settled t ∧ Still s t := by
  obtain ⟨elapsed, rfl, rfl⟩ | ⟨e, db, rfl, noCreate, hstep, rfl⟩ := background_cases moves
  · exact ⟨⟨h.consistent, h.finished, h.origin⟩, rfl, rfl,
      Int.le_add_of_nonneg_right (Int.natCast_nonneg elapsed)⟩
  · cases call : e.call with
    | none =>
      obtain ⟨messages, calls⟩ := still_of_step h.consistent call noCreate hstep
      refine ⟨⟨consistent_step h.consistent hstep, ?_, ?_⟩, messages, rfl, Int.le_refl _⟩
      · intro c hc
        exact h.finished c (calls ▸ hc)
      · rw [h.origin, ← calls]
    | some j =>
      cases e with
      | tick | migrate | create | claim | complete | retry => cases call
      | crash => cases succeeds
      | exec k answer =>
        obtain ⟨c, hc, _⟩ := step_exec hstep
        obtain ⟨result, ended⟩ := h.finished c (List.mem_of_getElem? hc)
        obtain rfl := exec_finished hc ended hstep
        exact ⟨h, .refl s⟩

/-! ## A `Create` under way -/

/-- The call `j` is the only one that may be running, for a request that came in over gRPC or not. A
list in the cache may be out of date only once it has inserted a message, and only for HTTP. -/
structure Running (cfg : Handlers.Config) (rpc : Bool) (j : Nat) (s : Env codec) : Prop where
  consistent : Consistent s.db
  others : ∀ (k : Nat) c, k ≠ j → s.db.calls[k]? = some c → ∃ result, c.phase = .finished result
  origin : s.origin.length = s.db.calls.length
  caller : ∃ i q, s.origin[j]? = some (i, q) ∧ q.rpc = rpc
  own : ∃ c, s.db.calls[j]? = some c ∧ c.phase ≠ .inDoubt ∧
    (Coherent cfg s ∨ rpc = false ∧ ∃ m, c.phase = .finished (.ok m))

/-- Without an answer lost, no commit is left in doubt. -/
theorem exec_ok_certain {c : Call codec.Payload} (certain : c.phase ≠ .inDoubt)
    (db : Tables codec.Payload) : (c.exec codec db .ok).2.phase ≠ .inDoubt := by
  cases hp : c.phase with
  | inserting =>
    simp only [Call.exec, hp]
    rcases c.insertMessage_cases db with eq | ⟨_, eq⟩ | ⟨_, phase, eq, rfl | ⟨payload, _, rfl⟩⟩
    all_goals simp [eq, Call.fail]
  | selecting =>
    simp only [Call.exec, hp, Call.selectMessage]
    split
    · simp [Call.fail]
    · split <;> simp [Call.fail]
  | replaying m => simp [Call.exec, hp, Call.discard]
  | enqueueing m payload rest =>
    cases rest with
    | nil => simp [Call.exec, hp, Call.settle]
    | cons target rest =>
      simp only [Call.exec, hp, Call.insertOutbox]
      split
      · simp [Call.fail]
      · split <;> simp
  | inDoubt => exact absurd hp certain
  | aborting err => simp [Call.exec, hp, Call.discard]
  | finished result => simp [Call.exec, hp]

/-- What the statements of the call do to the messages. -/
theorem exec_ok_messages {c : Call codec.Payload} (certain : c.phase ≠ .inDoubt)
    (db : Tables codec.Payload) :
    (c.exec codec db .ok).1.messages = db.messages ∨
      ∃ m, (c.exec codec db .ok).2.phase = .finished (.ok m) := by
  rcases c.exec_tables db .ok with ⟨messages, _⟩ | ⟨result, eq, ⟨m, payload, _, rfl⟩ | ⟨doubt, _⟩⟩
  · exact .inl messages
  · exact .inr ⟨m, by rw [eq]; rfl⟩
  · exact absurd doubt certain

/-- A statement of the call itself. -/
theorem Running.exec {rpc : Bool} {j : Nat} {s : Env codec} {t : Database codec}
    (h : Running cfg rpc j s) {c : Call codec.Payload} (hc : s.db.calls[j]? = some c)
    (hstep : step codec s.db (.exec j .ok) = some t)
    (unlisted : ∀ i q, s.origin[j]? = some (i, q) → q.rpc = true →
      t.tables.messages ≠ s.db.tables.messages →
      Tcache.get s.cache Handlers.listKey s.clock = none) :
    Running cfg rpc j { s with db := t } := by
  have consistent := consistent_step h.consistent hstep
  obtain ⟨c', hc', _, rfl⟩ := step_exec hstep
  obtain rfl : c = c' := Option.some.inj (hc.symm.trans hc')
  have hi : j < s.db.calls.length := (List.getElem?_eq_some_iff.mp hc).1
  obtain ⟨c', hc', certain, fresh⟩ := h.own
  obtain rfl : c = c' := Option.some.inj (hc.symm.trans hc')
  refine ⟨consistent, ?_, ?_, h.caller, _, List.getElem?_set_self hi,
    exec_ok_certain certain s.db.tables, ?_⟩
  · intro k c' other hc'
    rw [List.getElem?_set_ne (Ne.symm other)] at hc'
    exact h.others k c' other hc'
  · rw [List.length_set]
    exact h.origin
  · by_cases same : (c.exec codec s.db.tables .ok).1.messages = s.db.tables.messages
    · refine fresh.imp (fun coherent => coherent.still ⟨same, rfl, Int.le_refl _⟩) ?_
      rintro ⟨http, m, ended⟩
      exact ⟨http, m, by simp only [Call.exec, ended]⟩
    · cases rpc with
      | false => exact .inr ⟨rfl, (exec_ok_messages certain s.db.tables).resolve_left same⟩
      | true =>
        obtain ⟨i, q, found, grpc⟩ := h.caller
        refine .inl fun _ raw hit => ?_
        rw [unlisted i q found grpc same] at hit
        cases hit

theorem Running.still {rpc : Bool} {j : Nat} {s t : Env codec} {b : Quiet}
    (h : Running cfg rpc j s) (succeeds : Succeeds s b) (unlisted : Unlisted s b)
    (moves : background s b = some t) : Running cfg rpc j t := by
  obtain ⟨c, hc, certain, fresh⟩ := h.own
  obtain ⟨elapsed, rfl, rfl⟩ | ⟨e, db, rfl, noCreate, hstep, rfl⟩ := background_cases moves
  · have still : Still s { s with clock := s.clock + elapsed } :=
      ⟨rfl, rfl, Int.le_add_of_nonneg_right (Int.natCast_nonneg elapsed)⟩
    exact ⟨h.consistent, h.others, h.origin, h.caller, c, hc, certain,
      fresh.imp_left fun coherent => coherent.still still⟩
  · cases call : e.call with
    | none =>
      obtain ⟨messages, calls⟩ := still_of_step h.consistent call noCreate hstep
      have still : Still s { s with db := db } := ⟨messages, rfl, Int.le_refl _⟩
      refine ⟨consistent_step h.consistent hstep, ?_, ?_, h.caller, c, ?_, certain,
        fresh.imp_left fun coherent => coherent.still still⟩
      · intro k c' other hc'
        exact h.others k c' other (calls ▸ hc')
      · rw [h.origin, ← calls]
      · exact calls ▸ hc
    | some k =>
      cases e with
      | tick | migrate | create | claim | complete | retry => cases call
      | crash => cases succeeds
      | exec k answer =>
        obtain rfl : answer = .ok := succeeds
        by_cases mine : k = j
        · subst mine
          exact h.exec hc hstep fun i q found rpc => unlisted i q db found rpc hstep
        · obtain ⟨c', hc', _⟩ := step_exec hstep
          obtain ⟨result, ended⟩ := h.others k c' mine hc'
          obtain rfl := exec_finished hc' ended hstep
          exact h

/-! ## The handlers -/

section Handlers

-- what a text is checked for does not matter here, and unfolding the check is slow
seal validateText trimSpace

/-- The environment between two calls of a request. -/
def Between (cfg : Handlers.Config) : Env codec → Env codec → Prop :=
  (machine codec cfg).relies fun s b => Succeeds s b ∧ Unlisted s b

/-- The answers to the calls of request `i`. -/
def Answered (cfg : Handlers.Config) (i : Nat) (q : Incoming) :
    Env codec → (e : Effect) → e.Result → Env codec → Prop :=
  (machine codec cfg).answers (· = .ok) (i, q)

theorem Between.settled {s t : Env codec} (between : Between cfg s t) (h : Settled s) :
    Settled t ∧ Still s t := by
  induction between with
  | refl => exact ⟨h, .refl s⟩
  | tail _ move ih =>
    obtain ⟨b, ⟨succeeds, _⟩, moves⟩ := move
    obtain ⟨settled, still⟩ := ih.1.still succeeds moves
    exact ⟨settled, ih.2.trans still⟩

theorem Between.running {rpc : Bool} {j : Nat} {s t : Env codec} (between : Between cfg s t)
    (h : Running cfg rpc j s) : Running cfg rpc j t := by
  induction between with
  | refl => exact h
  | tail _ move ih =>
    obtain ⟨b, ⟨succeeds, unlisted⟩, moves⟩ := move
    exact ih.still succeeds unlisted moves

/-- A call begins with no other under way. -/
theorem Settled.submit {s : Env codec} (h : Settled s) (coherent : Coherent cfg s) (i : Nat)
    (q : Incoming) {text key : String} {targets : List String} {begun : Bool} {db : Database codec}
    (hstep : step codec s.db (.create text key targets begun) = some db) :
    Running cfg q.rpc s.db.calls.length { s with db := db, origin := s.origin ++ [(i, q)] } := by
  have consistent := consistent_step h.consistent hstep
  cases hstep
  refine ⟨consistent, ?_, ?_, ⟨i, q, ?_, rfl⟩, _, List.getElem?_concat_length, ?_, .inl coherent⟩
  · intro k c other hc
    have earlier : k < s.db.calls.length := by
      have bound := (List.getElem?_eq_some_iff.mp hc).1
      rw [List.length_append, List.length_singleton] at bound
      omega
    rw [List.getElem?_append_left earlier] at hc
    exact h.finished c (List.mem_of_getElem? hc)
  · simp [h.origin]
  · rw [← h.origin]
    exact List.getElem?_concat_length
  · unfold Call.start
    dsimp only
    split
    · nofun
    · split <;> nofun

/-- The call returns, and no transaction is open. -/
theorem Running.await {rpc : Bool} {j : Nat} {s : Env codec} (h : Running cfg rpc j s)
    {result : Except Err Message} (told : (s.db.calls[j]?).bind Call.result = some result) :
    Settled s ∧ (Coherent cfg s ∨ rpc = false ∧ ∃ m, result = .ok m) := by
  obtain ⟨c, hc, certain, fresh⟩ := h.own
  rw [hc, Option.bind_some] at told
  have ended : c.phase = .finished result := by
    unfold Call.result at told
    split at told
    · next r hp => rw [hp, Option.some.inj told]
    · next hp => exact absurd hp certain
    · cases told
  refine ⟨⟨h.consistent, ?_, h.origin⟩, fresh.imp_right ?_⟩
  · intro c' mem
    obtain ⟨k, hk⟩ := List.mem_iff_getElem?.mp mem
    by_cases mine : k = j
    · subst mine
      obtain rfl : c = c' := Option.some.inj (hc.symm.trans hk)
      exact ⟨result, ended⟩
    · exact h.others k c' mine hk
  · rintro ⟨http, m, ok⟩
    rw [ok] at ended
    cases ended
    exact ⟨http, m, rfl⟩

/-- `Service.Create`, run by itself. -/
theorem create_safe (i : Nat) (q : Incoming) (text key : String) {s : Env codec} (h : Settled s)
    (coherent : Coherent cfg s) :
    (create text key).Safe (Between cfg) (Answered cfg i q)
      (fun result t => Settled t ∧ (Coherent cfg t ∨ q.rpc = false ∧ ∃ m, result = .ok m)) s := by
  unfold create
  split
  · exact ⟨h, .inl coherent⟩
  · rintro s₁ between call s₂ ⟨answer, rfl, answered⟩
    obtain ⟨settled, still⟩ := between.settled h
    simp only [machine, respond] at answered
    obtain ⟨db, hstep, eq⟩ := Option.map_eq_some_iff.mp answered
    cases eq
    have running := settled.submit (coherent.still still) i q hstep
    rintro s₃ between result s₄ ⟨answer, rfl, answered⟩
    simp only [machine, respond] at answered
    obtain ⟨result', told, eq⟩ := Option.map_eq_some_iff.mp answered
    cases eq
    exact (between.running running).await told

/-- A call that touches neither the database nor the cache. -/
theorem Settled.of_same {s t : Env codec} (h : Settled s) (db : t.db = s.db)
    (origin : t.origin = s.origin) : Settled t :=
  ⟨db ▸ h.consistent, db ▸ h.finished, by rw [origin, db, h.origin]⟩

theorem count_safe (i : Nat) (q : Incoming) {s : Env codec} (h : Settled s) :
    count.Safe (Between cfg) (Answered cfg i q) (fun _ t => Settled t ∧ Still s t) s := by
  rintro s₁ between ⟨⟩ s₂ ⟨answer, rfl, answered⟩
  obtain ⟨settled, still⟩ := between.settled h
  cases answered
  exact ⟨settled.of_same rfl rfl, still.messages, still.cache, still.clock⟩

theorem audit_safe (i : Nat) (q : Incoming) (text : String) {s : Env codec} (h : Settled s) :
    (Handlers.audit cfg text).Safe (Between cfg) (Answered cfg i q)
      (fun _ t => Settled t ∧ Still s t) s := by
  unfold Handlers.audit
  split
  · rintro s₁ between ⟨⟩ s₂ ⟨answer, rfl, answered⟩
    obtain ⟨settled, still⟩ := between.settled h
    cases answered
    exact ⟨settled.of_same rfl rfl, still.messages, still.cache, still.clock⟩
  · exact ⟨h, .refl s⟩

/-- Without a list in the cache, none is out of date. -/
theorem invalidate_safe (i : Nat) (q : Incoming) {s : Env codec} (h : Settled s) :
    (Handlers.invalidate cfg).Safe (Between cfg) (Answered cfg i q)
      (fun _ t => Settled t ∧ Coherent cfg t) s := by
  unfold Handlers.invalidate
  split
  · rintro s₁ between ⟨⟩ s₂ ⟨answer, rfl, answered⟩
    obtain ⟨settled, _⟩ := between.settled h
    cases answered
    refine ⟨settled.of_same rfl rfl, fun _ raw hit => ?_⟩
    rw [get_delete] at hit
    cases hit
  · next uncached => exact ⟨h, fun cached => absurd cached uncached⟩

/-- `createMessage`, run by itself. -/
theorem createMessage_safe (i : Nat) (req : Request) (q : Incoming) {s : Env codec}
    (h : Settled s) (coherent : Coherent cfg s) :
    (Handlers.createMessage cfg req).Safe (Between cfg) (Answered cfg i q)
      (fun _ t => Settled t ∧ Coherent cfg t) s := by
  unfold Handlers.createMessage
  split
  · exact ⟨h, coherent⟩
  · split
    · exact ⟨h, coherent⟩
    · refine (create_safe i q _ _ h coherent).bind ?_
      rintro result t ⟨settled, fresh⟩
      -- only a success can have inserted a message
      have unchanged : (∀ m, result ≠ .ok m) → Coherent cfg t := fun failed =>
        fresh.resolve_right fun ⟨_, m, ok⟩ => failed m ok
      split
      · exact ⟨settled, unchanged nofun⟩
      · exact ⟨settled, unchanged nofun⟩
      · refine (count_safe i q settled).bind fun _ t₁ counted => ?_
        refine (audit_safe i q _ counted.1).bind fun _ t₂ recorded => ?_
        exact (invalidate_safe i q recorded.1).bind fun _ t₃ done => done

/-- `CreateMessage` over gRPC, run by itself. -/
theorem unary_safe (i : Nat) (q : Incoming) (rpc : q.rpc = true) (md : Header) (text : String)
    {s : Env codec} (h : Settled s) (coherent : Coherent cfg s) :
    (Grpcserver.createMessage md text).Safe (Between cfg) (Answered cfg i q)
      (fun _ t => Settled t ∧ Coherent cfg t) s := by
  unfold Grpcserver.createMessage
  split
  · exact ⟨h, coherent⟩
  · refine (create_safe i q _ _ h coherent).bind ?_
    rintro result t ⟨settled, fresh⟩
    have unchanged : Coherent cfg t := fresh.resolve_right fun posted => by
      rw [rpc] at posted
      cases posted.1
    split
    · exact ⟨settled, unchanged⟩
    · exact ⟨settled, unchanged⟩
    · exact (count_safe i q settled).bind fun _ t₁ counted => ⟨counted.1, unchanged.still counted.2⟩

/-- `BatchCreate`, run by itself: the induction is on what its client has yet to send. -/
theorem batch_safe (i : Nat) (q : Incoming) (rpc : q.rpc = true) (ending : Grpcserver.Ending)
    (texts : List String) : ∀ (ids : List Nat) {s : Env codec}, Settled s → Coherent cfg s →
      (Grpcserver.batchCreate ending ids texts).Safe (Between cfg) (Answered cfg i q)
        (fun _ t => Settled t ∧ Coherent cfg t) s := by
  induction texts with
  | nil =>
    intro ids s h coherent
    cases ending <;> exact ⟨h, coherent⟩
  | cons text rest ih =>
    intro ids s h coherent
    unfold Grpcserver.batchCreate
    split
    · exact ⟨h, coherent⟩
    · refine (create_safe i q _ _ h coherent).bind ?_
      rintro result t ⟨settled, fresh⟩
      have unchanged : Coherent cfg t := fresh.resolve_right fun posted => by
        rw [rpc] at posted
        cases posted.1
      split
      · exact ⟨settled, unchanged⟩
      · exact (count_safe i q settled).bind fun _ t₁ counted =>
          ih _ counted.1 (unchanged.still counted.2)

/-- The answer is the JSON of the list of `rows`. -/
def Lists (json : Handlers.Json) (rows : List MessageRow) (r : Response) : Prop :=
  r.status = 200 ∧ (r.body = Handlers.encoded (json.messages (Storage.list rows)) ∨
    json.messages (Storage.list rows) = some r.body)

theorem list_safe (i : Nat) (q : Incoming) {s : Env codec} (h : Settled s) :
    Messages.list.Safe (Between cfg) (Answered cfg i q)
      (fun r t => r = .ok (Storage.list t.db.tables.messages) ∧ Settled t ∧ Still s t) s := by
  rintro s₁ between read s₂ ⟨answer, rfl, answered⟩
  cases answered
  exact ⟨rfl, between.settled h⟩

theorem cacheGet_safe (i : Nat) (q : Incoming) {s : Env codec} (h : Settled s) :
    (cacheGet Handlers.listKey).Safe (Between cfg) (Answered cfg i q)
      (fun r t => r = Tcache.get t.cache Handlers.listKey t.clock ∧ Settled t ∧ Still s t) s := by
  rintro s₁ between read s₂ ⟨answer, rfl, answered⟩
  cases answered
  exact ⟨rfl, between.settled h⟩

/-- The list just read from the store goes into the cache. -/
theorem cacheSet_safe (i : Nat) (q : Incoming) {s : Env codec} (h : Settled s) {raw : Bytes}
    (marshalled : cfg.json.messages (Storage.list s.db.tables.messages) = some raw) :
    (cacheSet Handlers.listKey raw).Safe (Between cfg) (Answered cfg i q)
      (fun _ t => Settled t ∧ Coherent cfg t ∧ t.db.tables.messages = s.db.tables.messages) s := by
  rintro s₁ between ⟨⟩ s₂ ⟨answer, rfl, answered⟩
  obtain ⟨settled, still⟩ := between.settled h
  cases answered
  refine ⟨settled.of_same rfl rfl, fun _ found hit => ?_, still.messages⟩
  rw [get_set _ _ _ _ _ _ hit, still.messages]
  exact marshalled

/-- `listMessages` past the cache, run by itself. -/
theorem listStored_safe (i : Nat) (q : Incoming) {s : Env codec} (h : Settled s)
    (coherent : Coherent cfg s) :
    (Handlers.listStored cfg).Safe (Between cfg) (Answered cfg i q)
      (fun r t => Settled t ∧ Coherent cfg t ∧ Lists cfg.json t.db.tables.messages r) s := by
  refine (list_safe i q h).bind ?_
  rintro _ t ⟨rfl, settled, still⟩
  have kept := coherent.still still
  dsimp only
  split
  · split
    · next raw marshalled =>
      refine (cacheSet_safe i q settled marshalled).bind ?_
      rintro _ t' ⟨settled', coherent', messages⟩
      exact ⟨settled', coherent', rfl, .inl (by rw [messages]; rfl)⟩
    · exact ⟨settled, kept, rfl, .inl rfl⟩
  · exact ⟨settled, kept, rfl, .inl rfl⟩

/-- `listMessages`, run by itself. -/
theorem listMessages_safe (i : Nat) (q : Incoming) {s : Env codec} (h : Settled s)
    (coherent : Coherent cfg s) :
    (Handlers.listMessages cfg).Safe (Between cfg) (Answered cfg i q)
      (fun r t => Settled t ∧ Coherent cfg t ∧ Lists cfg.json t.db.tables.messages r) s := by
  unfold Handlers.listMessages
  split
  · next cached =>
    refine (cacheGet_safe i q h).bind ?_
    rintro found t ⟨looked, settled, still⟩
    have kept := coherent.still still
    cases found with
    | none => exact listStored_safe i q settled kept
    | some raw => exact ⟨settled, kept, rfl, .inr (kept cached raw looked.symm)⟩
  · exact listStored_safe i q h coherent

/-- What a request leaves behind, and what the list answers. -/
def Post (cfg : Handlers.Config) (q : Incoming) (a : Reply) (t : Env codec) : Prop :=
  Settled t ∧ match q with
    | .get .. => ∃ r, a = .http r ∧ Lists cfg.json t.db.tables.messages r
    | _ => True

/-- Every request, run by itself, leaves a coherent cache behind it. -/
theorem serve_safe (i : Nat) {q : Incoming} (passes : Passes q) {s : Env codec} (h : Settled s)
    (coherent : Coherent cfg s) :
    (serve cfg q).Safe (Between cfg) (Answered cfg i q)
      (fun a t => (Settled t ∧ Coherent cfg t) ∧ Post cfg q a t) s := by
  cases q with
  | post req valid exceeded =>
    have rests : (Handlers.postMessages cfg req valid exceeded).Safe (Between cfg)
        (Answered cfg i (.post req valid exceeded)) (fun _ t => Settled t ∧ Coherent cfg t) s := by
      unfold Handlers.postMessages Handlers.authorized Handlers.limited
      split
      · exact ⟨h, coherent⟩
      · split
        · exact ⟨h, coherent⟩
        · exact createMessage_safe i req _ h coherent
    exact rests.bind fun r t rests => ⟨rests, rests.1, trivial⟩
  | get req exceeded =>
    obtain rfl : exceeded = false := passes
    refine (listMessages_safe i _ h coherent).bind ?_
    rintro r t ⟨settled, kept, lists⟩
    exact ⟨⟨settled, kept⟩, settled, r, rfl, lists⟩
  | unary md text valid =>
    have rests : (Grpcserver.unaryCreate cfg.authEnabled valid md text).Safe (Between cfg)
        (Answered cfg i (.unary md text valid)) (fun _ t => Settled t ∧ Coherent cfg t) s := by
      unfold Grpcserver.unaryCreate
      split
      · exact ⟨h, coherent⟩
      · exact unary_safe i _ rfl md text h coherent
    exact rests.bind fun r t rests => ⟨rests, rests.1, trivial⟩
  | batch md texts ending valid =>
    have rests : (Grpcserver.streamBatch cfg.authEnabled valid md texts ending).Safe (Between cfg)
        (Answered cfg i (.batch md texts ending valid))
        (fun _ t => Settled t ∧ Coherent cfg t) s := by
      unfold Grpcserver.streamBatch
      split
      · exact ⟨h, coherent⟩
      · exact batch_safe i _ rfl ending texts [] h coherent
    exact rests.bind fun r t rests => ⟨rests, rests.1, trivial⟩

end Handlers

/-! ## Every answer -/

/-- **The list is that of the store.** In every run of one request at a time in which every call
succeeds, and no message comes in over gRPC while a list is served from the cache: whatever
`GET /messages` answers, from the cache or not, is the JSON of the store's list at that moment, with
every message that is among the hundred newest. -/
theorem list_coherent {w : State codec} (h : (guarded codec cfg).Reachable w) :
    ∀ req exceeded a t, (Incoming.get req exceeded, a, t) ∈ w.answered →
      ∃ r, a = .http r ∧ Lists cfg.json t.db.tables.messages r ∧
        ∀ row ∈ t.db.tables.messages,
          t.db.tables.messages.countP (fun r => row.id < r.id) < 100 →
          row.message (row.textHash = checksum row.text) ∈ Storage.list t.db.tables.messages := by
  have situation : (machine codec cfg).Situation (· = .ok) (fun s b => Succeeds s b ∧ Unlisted s b)
      (fun s => Settled s ∧ Coherent cfg s) (Post cfg) w := by
    refine Machine.oneByOne_situation ?_ ?_ ?_ h
    · rintro s ⟨initial, cache, _, _, origin⟩
      refine ⟨⟨consistent_initial initial, ?_, ?_⟩, fun _ raw hit => ?_⟩
      · simp [initial.calls]
      · simp [origin, initial.calls]
      · simp [cache, Tcache.get] at hit
    · rintro s b t ⟨settled, coherent⟩ ⟨succeeds, _⟩ moves
      obtain ⟨settled', still⟩ := settled.still succeeds moves
      exact ⟨settled', coherent.still still⟩
    · rintro i q s _ passes ⟨settled, coherent⟩ ⟨⟩
      exact serve_safe i passes settled coherent
  intro req exceeded a t mem
  obtain ⟨settled, r, rfl, lists⟩ := situation.answered _ a t mem
  refine ⟨r, rfl, lists, fun row hrow newest => ?_⟩
  have ids := settled.consistent.distinct.ids
  rw [written, List.map_append] at ids
  exact mem_list (List.nodup_append.mp ids).1 hrow newest

/-- An app with a cache, and no broker. -/
def cachedApp : Handlers.Config := ⟨Handlers.plainJson, [], true, false, false⟩

/-- A request for the list. -/
def getList : Request := ⟨"GET", "/messages", Header.empty, [], ""⟩

/-- A test for the steps of `sequential`. -/
def inSequence (w : State plainCodec) : Move Incoming Answer Quiet → Bool
  | .arrive (.get _ exceeded) => w.procs.all (fun p => Pool.returned p.2) && !exceeded
  | .arrive _ => w.procs.all fun p => Pool.returned p.2
  | .go _ answer => answer = .ok
  | .background (.store (.exec _ answer)) => answer = .ok
  | .background (.store (.crash _)) => false
  | .background _ => true

/-- A test for `Unlisted`. -/
def unlisted (w : State plainCodec) : Move Incoming Answer Quiet → Bool
  | .background (.store (.exec j _)) =>
    match w.env.origin[j]? with
    | some (_, q) => !q.rpc || (Tcache.get w.env.cache Handlers.listKey w.env.clock).isNone
    | none => true
  | _ => true

theorem succeeds_of_inSequence {w : State plainCodec} {b : Quiet}
    (h : inSequence w (.background b) = true) : Succeeds w.env b := by
  cases b with
  | tick => trivial
  | store e =>
    cases e with
    | exec j answer =>
      have ok : answer = .ok := of_decide_eq_true h
      exact ok
    | crash => cases h
    | tick | migrate | create | claim | complete | retry => trivial

theorem arrives_of_inSequence {w : State plainCodec} {q : Incoming}
    (h : inSequence w (.arrive q) = true) : w.Idle ∧ Passes q := by
  cases q with
  | get req exceeded =>
    obtain ⟨returned, passes⟩ := Bool.and_eq_true_iff.mp h
    exact ⟨Pool.idle_of_returned returned, (Bool.not_eq_true' exceeded).mp passes⟩
  | post | unary | batch => exact ⟨Pool.idle_of_returned h, trivial⟩

theorem unlisted_sound {w : State plainCodec} {b : Quiet} (h : unlisted w (.background b) = true) :
    Unlisted w.env b := by
  cases b with
  | tick => trivial
  | store e =>
    cases e with
    | exec j answer =>
      intro i q t found rpc _ _
      simp only [unlisted, found, rpc, Bool.not_true, Bool.false_or] at h
      exact Option.isNone_iff_eq_none.mp h
    | tick | migrate | create | crash | claim | complete | retry => trivial

/-- The list is read twice, the second time from the cache; when it has expired a message comes in
over gRPC, and then one over HTTP while the new list is in the cache. -/
def expired : List (Move Incoming Answer Quiet) :=
  [.arrive (.get getList false), .go 0 .ok, .go 0 .ok, .go 0 .ok,
    .arrive (.get getList false), .go 1 .ok,
    .background (.tick 11000000000),
    .arrive (.unary Header.empty "a" true), .go 2 .ok, .background (.store (.exec 0 .ok)),
    .background (.store (.exec 0 .ok)), .go 2 .ok, .go 2 .ok,
    .arrive (.get getList false), .go 3 .ok, .go 3 .ok, .go 3 .ok,
    .arrive (.post ⟨"POST", "/messages", Header.empty, [98], ""⟩ true false), .go 4 .ok,
    .background (.store (.exec 1 .ok)), .background (.store (.exec 1 .ok)), .go 4 .ok, .go 4 .ok,
    .go 4 .ok,
    .arrive (.get getList false), .go 5 .ok, .go 5 .ok, .go 5 .ok]

theorem list_coherent_expired :
    ∃ w t, (guarded plainCodec cachedApp).Reachable w ∧
      ∃ r, (Incoming.get getList false, Reply.http r, t) ∈ w.answered ∧
      t.db.tables.messages.length = 2 ∧
        Lists cachedApp.json t.db.tables.messages r := by
  have replayed : ∃ w a t rest, System.replay
      (fun w mv => if inSequence w mv && unlisted w mv then
        (machine plainCodec cachedApp).step w mv else none) startedApp expired = some w ∧
      w.answered = (Incoming.get getList false, a, t) :: rest ∧ t.db.tables.messages.length = 2 :=
    ⟨_, _, _, _, rfl, rfl, by decide⟩
  obtain ⟨w, a, t, rest, hw, last, two⟩ := replayed
  have run : (guarded plainCodec cachedApp).Runs startedApp w := by
    refine System.Runs.of_checked ?_ hw
    intro w mv ok
    obtain ⟨sequence, free⟩ := Bool.and_eq_true_iff.mp ok
    cases mv with
    | arrive q => exact arrives_of_inSequence sequence
    | go i answer => exact of_decide_eq_true sequence
    | background b => exact ⟨succeeds_of_inSequence sequence, unlisted_sound free⟩
  have reached : (guarded plainCodec cachedApp).Reachable w :=
    ⟨startedApp, ⟨fresh_startedApp, rfl, rfl⟩, run⟩
  have mem : (Incoming.get getList false, a, t) ∈ w.answered := by
    rw [last]
    exact List.mem_cons_self
  obtain ⟨r, rfl, lists, _⟩ := list_coherent reached getList false a t mem
  exact ⟨w, t, reached, r, mem, two, lists⟩

/-! ## The gRPC front end forgets the cache -/

/-- The list is read, a message comes in over gRPC, and the list is read again at once. -/
def forgotten : List (Move Incoming Answer Quiet) :=
  [.arrive (.get getList false), .go 0 .ok, .go 0 .ok, .go 0 .ok,
    .arrive (.unary Header.empty "a" true), .go 1 .ok, .background (.store (.exec 0 .ok)),
    .background (.store (.exec 0 .ok)), .go 1 .ok, .go 1 .ok,
    .arrive (.get getList false), .go 2 .ok]

/-- **A message is missing.** The second list comes from the cache, without the message that the
gRPC front end has confirmed before. -/
theorem stale_hit :
    ∃ w r t, (sequential plainCodec cachedApp).Reachable w ∧
      (Incoming.get getList false, Reply.http r, t) ∈ w.answered ∧ r.header.get "X-Cache" = "HIT" ∧
      t.db.tables.messages.length = 1 ∧ r.body = [] ∧
      ¬ Lists cachedApp.json t.db.tables.messages r := by
  have replayed : ∃ w r t rest, System.replay
      (fun w mv => if inSequence w mv then (machine plainCodec cachedApp).step w mv else none)
      startedApp forgotten = some w ∧
      w.answered = (Incoming.get getList false, Reply.http r, t) :: rest ∧
      r.header.get "X-Cache" = "HIT" ∧
      t.db.tables.messages.length = 1 ∧ r.body = [] ∧
      ¬ (Handlers.encoded (Handlers.plainJson.messages (Storage.list t.db.tables.messages)) = [] ∨
        Handlers.plainJson.messages (Storage.list t.db.tables.messages) = some []) :=
    ⟨_, _, _, _, rfl, rfl, by decide⟩
  obtain ⟨w, r, t, rest, hw, last, header, one, body, differs⟩ := replayed
  have run : (sequential plainCodec cachedApp).Runs startedApp w := by
    refine System.Runs.of_checked ?_ hw
    intro w mv ok
    cases mv with
    | arrive q => exact arrives_of_inSequence ok
    | go i answer => exact of_decide_eq_true ok
    | background b => exact succeeds_of_inSequence ok
  refine ⟨w, r, t, ⟨startedApp, ⟨fresh_startedApp, rfl, rfl⟩, run⟩, ?_, header, one, body, ?_⟩
  · rw [last]
    exact List.mem_cons_self
  · rintro ⟨_, written | cached⟩
    · exact differs (.inl (written.symm.trans body))
    · exact differs (.inr (body ▸ cached))

end OtusApp.App
