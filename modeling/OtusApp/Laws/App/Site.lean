import OtusApp.App.Site
import OtusApp.Laws.App.Store

/-!
# What an answer of the app says

A `201` to a request is backed by the store: there is a row under the request's key, and the body is
the JSON of a message with that row's identifier (`site_promise`).
-/

namespace OtusApp.App

open Messaging Messages Go Storage Program Hop Transition

variable {codec : EventCodec} {cfg : Handlers.Config}

/-- A route hands on the request it was given. -/
theorem route_request {req : Request} {checks : Checks} {q : Incoming}
    (routed : route req checks = some q) : q.request = some req := by
  unfold route at routed
  split at routed
  · cases routed
  · split at routed
    · cases routed
      rfl
    · split at routed
      · cases routed
        rfl
      · cases routed

/-- The key of a request that arrived over HTTP. -/
theorem key_of_request {q : Incoming} {req : Request} {key : String}
    (request : q.request = some req) (mine : q.key = some key) :
    key = req.header.get "Idempotency-Key" := by
  cases q with
  | post =>
    cases request
    exact (Option.some.inj mine).symm
  | get => cases mine
  | unary | batch => cases request

theorem site_lawful : (site codec cfg).Lawful where
  accept_step h := by
    simp only [site, Option.bind_eq_some_iff, Option.map_eq_some_iff, Prod.mk.injEq] at h
    obtain ⟨q, _, w', hstep, _, rfl⟩ := h
    exact ⟨.arrive q, hstep⟩
  accept_handles h := by
    simp only [site, Option.bind_eq_some_iff, Option.map_eq_some_iff, Prod.mk.injEq] at h
    obtain ⟨q, routed, w', hstep, rfl, rfl⟩ := h
    cases hstep
    simpa [site] using route_request routed
  handles_kept hstep h := by
    obtain ⟨⟨q, prog⟩, runs, request⟩ := Option.bind_eq_some_iff.mp h
    obtain ⟨prog', runs'⟩ := Machine.request_kept hstep runs
    simp [site, runs', request]

/-- If the answer is a `201`, a row is stored under the key, and the body is the JSON of a message
with its identifier, as far as it came through. -/
def Vouched (json : Handlers.Json) (messages : List MessageRow) (key : String) (r : Response) :
    Prop :=
  r.status = 201 → ∃ m row, row ∈ messages ∧ row.idemKey = nullIf key ∧ row.id = m.id ∧
    r.body <+: Handlers.encoded (json.message m)

theorem Vouched.grow {json : Handlers.Json} {messages messages' : List MessageRow} {key : String}
    {r : Response} (h : Vouched json messages key r) (grows : ∀ row ∈ messages, row ∈ messages') :
    Vouched json messages' key r := by
  intro created
  obtain ⟨m, row, stored, rest⟩ := h created
  exact ⟨m, row, grows row stored, rest⟩

/-- A row is stored for the message, under the key. -/
def Stored (key : String) (m : Message) (s : Env codec) : Prop :=
  ∃ row ∈ s.db.tables.messages, row.idemKey = nullIf key ∧ row.id = m.id

theorem Stored.later {key : String} {m : Message} {s t : Env codec} (h : Stored key m s)
    (later : Later s.db t.db) : Stored key m t := by
  obtain ⟨row, stored, rest⟩ := h
  exact ⟨row, later.messages row stored, rest⟩

/-- What every step of the app keeps of its environment. -/
def Lasts (s t : Env codec) : Prop := Later s.db t.db

/-- The answers in an environment that is consistent. -/
def Given (cfg : Handlers.Config) (caller : Nat × Incoming) :
    Env codec → (e : Effect) → e.Result → Env codec → Prop :=
  (machine codec cfg).answersIn (fun s => Consistent s.db) caller

theorem Given.later {caller : Nat × Incoming} {s t : Env codec} {e : Effect} {r : e.Result}
    (h : Given cfg caller s e r t) : Later s.db t.db := by
  obtain ⟨consistent, answer, answers⟩ := h
  rcases respond_db answers with ⟨db, _⟩ | ⟨text, key, _, hstep, _⟩
  · rw [db]
    exact .refl _
  · exact later_step consistent hstep

section Handlers

-- what a text is checked for does not matter here, and unfolding the check is slow
seal validateText trimSpace

/-- `Service.Create` among any other requests: a success is stored under the key. -/
theorem create_stored (caller : Nat × Incoming) (text key : String) (s : Env codec) :
    (create text key).Safe Lasts (Given cfg caller)
      (fun result t => ∀ m, result = .ok m → Stored key m t) s := by
  unfold create
  split
  · nofun
  · rintro s₁ _ call s₂ ⟨_, answer, answers⟩
    simp only [machine, respond] at answers
    obtain ⟨db, hstep, eq⟩ := Option.map_eq_some_iff.mp answers
    cases eq
    cases hstep
    rintro s₃ lasts result s₄ ⟨consistent, answer, answers⟩
    simp only [machine, respond] at answers
    obtain ⟨result, told, eq⟩ := Option.map_eq_some_iff.mp answers
    cases eq
    rintro m rfl
    -- the call is the one that was opened, some statements later
    obtain ⟨c, hc, continues⟩ := lasts.calls _ _ List.getElem?_concat_length
    rw [hc, Option.bind_some] at told
    obtain ⟨row, answered⟩ := answered_of_ok consistent (List.mem_of_getElem? hc) told
    exact ⟨row, answered.stored, by rw [answered.key, continues.key]; rfl, answered.same.1.symm⟩

/-- Every further call leaves what is stored. -/
theorem Stored.kept {caller : Nat × Incoming} {key : String} {m : Message} {s : Env codec}
    (h : Stored key m s) {α : Type} (x : Handler α) :
    x.Safe Lasts (Given cfg caller) (fun _ t => Stored key m t) s :=
  Prog.safe_of_kept (fun _ _ lasts stored => stored.later lasts)
    (fun _ _ _ _ given stored => stored.later given.later) x h

/-- `createMessage` among any other requests. -/
theorem createMessage_vouched (caller : Nat × Incoming) (req : Request) (s : Env codec) :
    (Handlers.createMessage cfg req).Safe Lasts (Given cfg caller)
      (fun r t =>
        Vouched cfg.json t.db.tables.messages (req.header.get "Idempotency-Key") r) s := by
  unfold Handlers.createMessage
  split
  · nofun
  · split
    · nofun
    · refine (create_stored caller _ _ s).bind fun result t stored => ?_
      split
      · nofun
      · nofun
      · next m =>
        refine ((stored m rfl).kept count).bind fun _ t stored => ?_
        refine (stored.kept (Handlers.audit cfg _)).bind fun _ t stored => ?_
        refine (stored.kept (Handlers.invalidate cfg)).bind fun _ t stored => ?_
        intro _
        obtain ⟨row, mem, key, id⟩ := stored
        exact ⟨m, row, mem, key, id, List.prefix_rfl⟩

/-- The list is never a `201`. -/
theorem listMessages_status (caller : Nat × Incoming) (s : Env codec) :
    (Handlers.listMessages cfg).Safe Lasts (Given cfg caller) (fun r _ => r.status ≠ 201) s := by
  have stored (s : Env codec) : (Handlers.listStored cfg).Safe Lasts (Given cfg caller)
      (fun r _ => r.status ≠ 201) s := by
    refine (Prog.safe_true list s).bind fun read t _ => ?_
    split
    · exact fun h => nomatch h
    · split
      · split
        · exact (Prog.safe_true (cacheSet _ _) t).bind fun _ t _ => fun h => nomatch h
        · exact fun h => nomatch h
      · exact fun h => nomatch h
  unfold Handlers.listMessages
  split
  · refine (Prog.safe_true (cacheGet _) s).bind fun found t _ => ?_
    cases found with
    | none => exact stored t
    | some raw => exact fun h => nomatch h
  · exact stored s

/-- The answer of a request that arrived over HTTP is vouched for. -/
def Backed (json : Handlers.Json) (q : Incoming) (a : Reply) (s : Env codec) : Prop :=
  ∀ req r, q.request = some req → a = .http r →
    Vouched json s.db.tables.messages (req.header.get "Idempotency-Key") r

/-- **Every handler, among any other requests.** -/
theorem serve_backed (caller : Nat × Incoming) (q : Incoming) (s : Env codec) :
    (serve cfg q).Safe Lasts (Given cfg caller) (Backed cfg.json q) s := by
  cases q with
  | post req valid exceeded =>
    have vouched : (Handlers.postMessages cfg req valid exceeded).Safe Lasts (Given cfg caller)
        (fun r t =>
          Vouched cfg.json t.db.tables.messages (req.header.get "Idempotency-Key") r) s := by
      unfold Handlers.postMessages Handlers.authorized Handlers.limited
      split
      · nofun
      · split
        · nofun
        · exact createMessage_vouched caller req s
    refine vouched.bind fun r t holds => ?_
    rintro _ _ ⟨⟩ ⟨⟩
    exact holds
  | get req exceeded =>
    have other : (Handlers.getMessages cfg exceeded).Safe Lasts (Given cfg caller)
        (fun r _ => r.status ≠ 201) s := by
      unfold Handlers.getMessages Handlers.limited
      split
      · exact fun h => nomatch h
      · exact listMessages_status caller s
    refine other.bind fun r t other => ?_
    rintro _ _ ⟨⟩ ⟨⟩ created
    exact absurd created other
  | unary md text valid =>
    refine (Prog.safe_true _ s).bind fun r t _ => ?_
    rintro _ _ ⟨⟩
  | batch md texts ending valid =>
    refine (Prog.safe_true _ s).bind fun r t _ => ?_
    rintro _ _ ⟨⟩

end Handlers

/-- What the app promises to a request. -/
def Promised (cfg : Handlers.Config) (req : Request) (r : Response) (w : State codec) : Prop :=
  Vouched cfg.json w.env.db.tables.messages (req.header.get "Idempotency-Key") r

/-- **A `201` of the app is backed by its store.** -/
theorem site_promise : (site codec cfg).Promise (Promised cfg) where
  kept := by
    intro w p req r reached handled result
    obtain ⟨⟨q, prog⟩, runs, request⟩ := Option.bind_eq_some_iff.mp handled
    have safe := Machine.safe (fun s => Consistent s.db) Lasts (Backed cfg.json)
      (fun w reached => app_consistent reached) (fun s => Later.refl s.db)
      (fun _ _ _ => Later.trans) ?_ ?_ ?_ reached p q prog runs
    · simp only [site, runs] at result
      split at result
      · next eq =>
        cases eq
        cases result
        exact safe req r request rfl
      · cases result
    · intro w mv w' reached hstep
      exact app_later reached (.single hstep)
    · intro q a s t backed lasts req r request http
      exact (backed req r request http).grow lasts.messages
    · intro i q s t _ taken
      exact serve_backed (i, q) q t
  stable := by
    intro w w' req r reached run promised
    exact promised.grow (app_later reached run).messages

end OtusApp.App
