import OtusApp.App.Machine
import OtusApp.Laws.Storage.Idempotency

/-!
# The app and its database

Every step of the app is a run of its database (`app_runs`), so what holds of every reachable
database holds under the front ends. And every `Create` is on behalf of a request, with that
request's key (`owned`).
-/

namespace OtusApp.App

open Messaging Messages Go Storage Program Transition

variable {codec : EventCodec} {cfg : Handlers.Config}

/-! ## Steps of the environment -/

/-- The steps of the database other than those of a `Create`. -/
theorem still_of_step {s t : Database codec} {e : Event} (h : Consistent s) (noCall : e.call = none)
    (noCreate : ∀ text key targets begun, e ≠ .create text key targets begun)
    (hstep : step codec s e = some t) :
    t.tables.messages = s.tables.messages ∧ t.calls = s.calls := by
  cases e with
  | tick | complete | retry =>
    cases hstep
    exact ⟨rfl, rfl⟩
  | migrate =>
    cases hstep
    exact ⟨migrate_eq_self h.hashed, rfl⟩
  | create text key targets begun => exact absurd rfl (noCreate text key targets begun)
  | exec | crash => cases noCall
  | claim =>
    obtain ⟨_, rfl⟩ := step_claim hstep
    exact ⟨rfl, rfl⟩

/-- A move of the environment by itself. -/
theorem background_cases {s t : Env codec} {b : Quiet} (h : background s b = some t) :
    (∃ elapsed : Nat, b = .tick elapsed ∧ t = { s with clock := s.clock + elapsed }) ∨
    ∃ e db, b = .store e ∧ (∀ text key targets begun, e ≠ .create text key targets begun) ∧
      step codec s.db e = some db ∧ t = { s with db := db } := by
  cases b with
  | tick elapsed => exact .inl ⟨elapsed, rfl, (Option.some.inj h).symm⟩
  | store e =>
    cases e with
    | create text key targets begun => cases h
    | tick | migrate | exec | crash | claim | complete | retry =>
      simp only [background] at h
      obtain ⟨db, hstep, rfl⟩ := Option.map_eq_some_iff.mp h
      exact .inr ⟨_, db, rfl, nofun, hstep, rfl⟩

/-- The statements of a call that has returned do nothing. -/
theorem exec_finished {s t : Database codec} {j : Nat} {answer : Answer} {c : Call codec.Payload}
    (hc : s.calls[j]? = some c) {result : Except Err Message} (ended : c.phase = .finished result)
    (hstep : step codec s (.exec j answer) = some t) : t = s := by
  obtain ⟨c', hc', _, rfl⟩ := step_exec hstep
  obtain rfl : c = c' := Option.some.inj (hc.symm.trans hc')
  simp only [Call.exec, ended, Rows.set_same hc]

/-- How a call is answered, as far as the database sees it: `submit` opens a `Create`, and the
others leave it alone. -/
theorem respond_db {s t : Env codec} {caller : Nat × Incoming} {e : Effect} {answer : Answer}
    {r : e.Result} (h : respond cfg s caller e answer = some (r, t)) :
    (t.db = s.db ∧ t.origin = s.origin) ∨ ∃ text key, e = .submit text key ∧
      step codec s.db (.create text key cfg.targets (answer = .ok)) = some t.db ∧
      t.origin = s.origin ++ [caller] := by
  cases e with
  | submit text key =>
    simp only [respond] at h
    obtain ⟨db, hstep, eq⟩ := Option.map_eq_some_iff.mp h
    cases eq
    exact .inr ⟨text, key, rfl, hstep, rfl⟩
  | await call =>
    simp only [respond] at h
    obtain ⟨_, _, eq⟩ := Option.map_eq_some_iff.mp h
    cases eq
    exact .inl ⟨rfl, rfl⟩
  | list | cacheGet | cacheSet | cacheDelete | record =>
    cases answer <;> cases h <;> exact .inl ⟨rfl, rfl⟩
  | count =>
    cases h
    exact .inl ⟨rfl, rfl⟩

/-- Only a `Create` adds a call. -/
theorem calls_length {s t : Database codec} {e : Event}
    (noCreate : ∀ text key targets begun, e ≠ .create text key targets begun)
    (hstep : step codec s e = some t) : t.calls.length = s.calls.length := by
  cases e with
  | tick | migrate | complete | retry =>
    cases hstep
    rfl
  | create text key targets begun => exact absurd rfl (noCreate text key targets begun)
  | exec j answer =>
    obtain ⟨c, _, _, rfl⟩ := step_exec hstep
    exact List.length_set
  | crash j =>
    obtain ⟨c, _, rfl⟩ := step_crash hstep
    exact List.length_set
  | claim =>
    obtain ⟨_, rfl⟩ := step_claim hstep
    rfl

/-! ## The database under the app -/

/-- A step of the app is a run of its database. -/
theorem step_db_runs {w w' : State codec} {mv : Move Incoming Answer Quiet}
    (h : (machine codec cfg).step w mv = some w') : (database codec).Runs w.env.db w'.env.db := by
  cases Machine.stepped h with
  | arrive taken =>
    cases taken
    exact .refl _
  | @go i c q e k r env runs answers =>
    rcases respond_db answers with ⟨same, _⟩ | ⟨text, key, _, hstep, _⟩
    · rw [same]
      exact .refl _
    · exact .single hstep
  | @background b env moves =>
    obtain ⟨elapsed, _, rfl⟩ | ⟨e, db, _, _, hstep, rfl⟩ := background_cases moves
    · exact .refl _
    · exact .single hstep

theorem app_simulates : System.Simulates (app codec cfg) (database codec) (fun w => w.env.db) where
  init _ fresh := fresh.1.1
  step _ _ _ _ hstep := step_db_runs hstep

/-- What holds of every reachable database holds under the app. -/
theorem app_consistent {w : State codec} (h : (app codec cfg).Reachable w) : Consistent w.env.db :=
  consistent (app_simulates.reachable h)

/-- A run of the app is a run of its database. -/
theorem app_later {w w' : State codec} (h : (app codec cfg).Reachable w)
    (run : (app codec cfg).Runs w w') : Later w.env.db w'.env.db := by
  refine h.run_rel (R := fun w w' => Later w.env.db w'.env.db) (fun w => Later.refl w.env.db)
    Later.trans ?_ run
  intro w mv w' reached hstep
  exact later (app_simulates.reachable reached) (step_db_runs hstep)

/-! ## On whose behalf -/

/-- The key a request gives to its `Create`s. -/
def Incoming.key : Incoming → Option String
  | .post req .. => some (req.header.get "Idempotency-Key")
  | .get .. => none
  | .unary md .. => some (md.get "idempotency-key")
  | .batch .. => some ""

/-- A `Create` has the key of the request it is made for. -/
def Keyed (q : Incoming) : Effect → Prop
  | .submit _ key => q.key = some key
  | _ => True

/-- A call that is neither part of a `Create` nor an effect of one. -/
def Aside : Effect → Prop
  | .list => True
  | .cacheGet _ => True
  | .cacheSet _ _ => True
  | .cacheDelete _ => True
  | _ => False

/-- A call that a `Create` under `key` is made of, or an effect of one. -/
def Writes (key : Option String) : Effect → Prop
  | .submit _ k => key = some k
  | .await _ => True
  | .cacheDelete _ => True
  | .count => True
  | .record _ _ => True
  | _ => False

theorem Writes.keyed {q : Incoming} {key : Option String} {e : Effect} (h : Writes key e)
    (mine : q.key = key) :
    Keyed q e := by
  cases e with
  | submit text k => exact mine.trans h
  | await | cacheDelete | count | record => trivial
  | list | cacheGet | cacheSet => exact h.elim

theorem Aside.keyed (q : Incoming) (e : Effect) (h : Aside e) : Keyed q e := by
  cases e with
  | submit | await | count | record => exact h.elim
  | list | cacheGet | cacheSet | cacheDelete => trivial

theorem invalidate_aside : (Handlers.invalidate cfg).All Aside := by
  unfold Handlers.invalidate
  split
  · exact ⟨trivial, fun _ => trivial⟩
  · exact trivial

theorem listStored_aside : (Handlers.listStored cfg).All Aside := by
  refine ⟨trivial, fun found => ?_⟩
  cases found with
  | error err => exact trivial
  | ok msgs =>
    simp only [Prog.bind]
    split
    · split
      · exact ⟨trivial, fun _ => trivial⟩
      · exact trivial
    · exact trivial

theorem getMessages_aside (exceeded : Bool) : (Handlers.getMessages cfg exceeded).All Aside := by
  unfold Handlers.getMessages Handlers.limited
  split
  · exact trivial
  · unfold Handlers.listMessages
    split
    · refine ⟨trivial, fun raw => ?_⟩
      cases raw with
      | some raw => exact trivial
      | none => exact listStored_aside
    · exact listStored_aside

section Handlers

-- what a text is checked for does not matter here, and unfolding the check is slow
seal validateText trimSpace

theorem create_writes (text key : String) : (create text key).All (Writes (some key)) := by
  unfold create
  split
  · trivial
  · exact ⟨rfl, fun _ => ⟨trivial, fun _ => trivial⟩⟩

theorem audit_writes (key : Option String) (text : String) :
    (Handlers.audit cfg text).All (Writes key) := by
  unfold Handlers.audit
  split
  · exact ⟨trivial, fun _ => trivial⟩
  · trivial

theorem count_writes (key : Option String) : count.All (Writes key) := ⟨trivial, fun _ => trivial⟩

theorem invalidate_writes (key : Option String) : (Handlers.invalidate cfg).All (Writes key) := by
  unfold Handlers.invalidate
  split
  · exact ⟨trivial, fun _ => trivial⟩
  · trivial

theorem createMessage_writes (req : Request) :
    (Handlers.createMessage cfg req).All (Writes (some (req.header.get "Idempotency-Key"))) := by
  unfold Handlers.createMessage
  split
  · trivial
  · split
    · trivial
    · refine Prog.all_bind (create_writes _ _) fun result => ?_
      split
      · trivial
      · trivial
      · refine Prog.all_bind (count_writes _) fun _ => ?_
        refine Prog.all_bind (audit_writes _ _) fun _ => ?_
        exact Prog.all_bind (invalidate_writes _) fun _ => trivial

theorem batchCreate_writes (ending : Grpcserver.Ending) (texts : List String) :
    ∀ ids, (Grpcserver.batchCreate ending ids texts).All (Writes (some "")) := by
  induction texts with
  | nil =>
    intro ids
    cases ending <;> trivial
  | cons text rest ih =>
    intro ids
    unfold Grpcserver.batchCreate
    split
    · trivial
    · refine Prog.all_bind (create_writes _ _) fun result => ?_
      split
      · trivial
      · exact Prog.all_bind (count_writes _) fun _ => ih _

theorem postMessages_writes (req : Request) (valid exceeded : Bool) :
    (Handlers.postMessages cfg req valid exceeded).All
      (Writes (some (req.header.get "Idempotency-Key"))) := by
  unfold Handlers.postMessages Handlers.authorized Handlers.limited
  split
  · trivial
  · split
    · trivial
    · exact createMessage_writes req

theorem unaryCreate_writes (authEnabled valid : Bool) (md : Header) (text : String) :
    (Grpcserver.unaryCreate authEnabled valid md text).All
      (Writes (some (md.get "idempotency-key"))) := by
  unfold Grpcserver.unaryCreate Grpcserver.createMessage
  split
  · trivial
  · split
    · trivial
    · refine Prog.all_bind (create_writes _ _) fun result => ?_
      split
      · trivial
      · trivial
      · exact Prog.all_bind (count_writes _) fun _ => trivial

theorem streamBatch_writes (authEnabled valid : Bool) (md : Header) (texts : List String)
    (ending : Grpcserver.Ending) :
    (Grpcserver.streamBatch authEnabled valid md texts ending).All (Writes (some "")) := by
  unfold Grpcserver.streamBatch
  split
  · trivial
  · exact batchCreate_writes ending texts []

/-- Every `Create` a request makes has its key. -/
theorem serve_keyed (q : Incoming) : (serve cfg q).All (Keyed q) := by
  cases q with
  | post req valid exceeded =>
    exact Prog.all_bind
      ((postMessages_writes req valid exceeded).mono fun _ h => h.keyed rfl) fun _ => trivial
  | get req exceeded =>
    exact Prog.all_bind ((getMessages_aside exceeded).mono (Aside.keyed _)) fun _ => trivial
  | unary md text valid =>
    exact Prog.all_bind
      ((unaryCreate_writes _ valid md text).mono fun _ h => h.keyed rfl) fun _ => trivial
  | batch md texts ending valid =>
    exact Prog.all_bind
      ((streamBatch_writes _ valid md texts ending).mono fun _ h => h.keyed rfl) fun _ => trivial

end Handlers

/-- Each call of the database is a `Create` of a request, with its key. -/
structure Owned (w : State codec) : Prop where
  length : w.env.origin.length = w.env.db.calls.length
  calls : ∀ (j p : Nat) q, w.env.origin[j]? = some (p, q) →
    (∃ prog, w.procs[p]? = some (q, prog)) ∧ ∃ c, w.env.db.calls[j]? = some c ∧ q.key = some c.key

/-- A step that opens no `Create`. -/
theorem Owned.keep {w w' : State codec} {mv : Move Incoming Answer Quiet} (h : Owned w)
    (hstep : (machine codec cfg).step w mv = some w') (later : Later w.env.db w'.env.db)
    (origin : w'.env.origin = w.env.origin)
    (length : w'.env.db.calls.length = w.env.db.calls.length) : Owned w' := by
  refine ⟨by rw [origin, length, h.length], fun j p q hj => ?_⟩
  obtain ⟨⟨prog, runs⟩, c, hc, key⟩ := h.calls j p q (origin ▸ hj)
  obtain ⟨c', hc', continues⟩ := later.calls j c hc
  exact ⟨Machine.request_kept hstep runs, c', hc', by rw [key, continues.key]⟩

/-- A step that opens one. -/
theorem Owned.submit {w w' : State codec} {mv : Move Incoming Answer Quiet} (h : Owned w)
    (hstep : (machine codec cfg).step w mv = some w') {i : Nat} {q : Incoming}
    {prog : Handler Reply} (runs : w.procs[i]? = some (q, prog)) {text key : String}
    (mine : q.key = some key) {targets : List String} {begun : Bool}
    (created : step codec w.env.db (.create text key targets begun) = some w'.env.db)
    (origin : w'.env.origin = w.env.origin ++ [(i, q)]) : Owned w' := by
  have calls : w'.env.db.calls =
      w.env.db.calls ++ [Call.start text key targets w.env.db.now begun] := by
    rw [← Option.some.inj created]
  refine ⟨by simp [origin, calls, h.length], fun j p q' hj => ?_⟩
  rw [origin] at hj
  rw [calls]
  rcases Rows.getElem?_concat hj with earlier | ⟨rfl, last⟩
  · obtain ⟨⟨prog, runs⟩, c, hc, key⟩ := h.calls j p q' earlier
    exact ⟨Machine.request_kept hstep runs, c,
      by rw [List.getElem?_append_left (List.getElem?_eq_some_iff.mp hc).1, hc], key⟩
  · cases last
    refine ⟨Machine.request_kept hstep runs,
      Call.start text key targets w.env.db.now begun, ?_, mine⟩
    rw [h.length]
    exact List.getElem?_concat_length

theorem owned {w : State codec} (h : (app codec cfg).Reachable w) : Owned w := by
  refine h.invariant ?_ ?_
  · rintro w ⟨⟨initial, _, _, _, origin⟩, _⟩
    refine ⟨by simp [origin, initial.calls], fun j p q hj => ?_⟩
    rw [origin] at hj
    cases hj
  · intro w mv w' reached ih hstep
    have later := app_later reached (.single hstep)
    have kept := ih.keep hstep later
    cases Machine.stepped hstep with
    | arrive taken =>
      cases taken
      exact kept rfl rfl
    | @go i answer q e k r env runs answers =>
      rcases respond_db answers with ⟨db, origin⟩ | ⟨text, key, rfl, created, origin⟩
      · exact kept origin (by rw [db])
      · have keyed := Machine.asks serve_keyed reached q _ (List.mem_of_getElem? runs)
        exact ih.submit hstep runs keyed.1 created origin
    | @background b env moves =>
      obtain ⟨elapsed, _, rfl⟩ | ⟨e, db, _, noCreate, dbStep, rfl⟩ := background_cases moves
      · exact kept rfl rfl
      · exact kept rfl (calls_length noCreate dbStep)

/-- An app just started. -/
def startedApp : State plainCodec := ⟨⟨emptyDatabase, 0, [], 0, [], []⟩, [], []⟩

theorem fresh_startedApp : Fresh startedApp.env := ⟨initial_empty, rfl, rfl, rfl, rfl⟩

end OtusApp.App
