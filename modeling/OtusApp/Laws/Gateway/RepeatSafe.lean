import OtusApp.Gateway.Forward
import OtusApp.Laws.App.Site
import OtusApp.Laws.Gateway.Relay

/-!
# The repeat-safe path

A request to the gateway goes through the chaos proxy to the app, and may reach it any number of
times. Every `Create` it leads to has one key, the one the gateway attached (`serves_key`), and the
store has at most one row under it. On the way back each hop hands on what the app promised: a `201`
is backed by the row under the key (`path_promise`).
-/

namespace OtusApp.Gateway

open Messaging Messages Go Storage Program Hop Site Transition

variable {codec : EventCodec} {cfg : Handlers.Config}

/-! ## The key -/

/-- The key under which the gateway sends a request on. -/
def idemKey (req : Request) (x : Draws) : String :=
  (forwardHeader "POST" req x).get "Idempotency-Key"

theorem newIdemKey_ne_empty (x : Draws) : newIdemKey x ≠ "" := by
  unfold newIdemKey
  split
  · next buf _ =>
    refine hexEncode_ne_empty fun none => ?_
    have length := congrArg List.length none
    rw [Vector.length_toList] at length
    cases length
  · exact formatInt_ne_empty _ _

/-- The client's key, or a new one. -/
theorem idemKey_eq (req : Request) (x : Draws) :
    idemKey req x = if req.header.get "Idempotency-Key" = "" then newIdemKey x
      else req.header.get "Idempotency-Key" := by
  have copied := copyHeaders_get (show isHopHeader "Idempotency-Key" = false by decide) req.header
  have keyed : (if "POST" = "POST" ∧
      (copyHeaders Header.empty req.header).get "Idempotency-Key" = "" then
        (copyHeaders Header.empty req.header).set "Idempotency-Key" (newIdemKey x)
      else copyHeaders Header.empty req.header).get "Idempotency-Key" =
      if req.header.get "Idempotency-Key" = "" then newIdemKey x
      else req.header.get "Idempotency-Key" := by
    by_cases none : req.header.get "Idempotency-Key" = ""
    · rw [copied, if_pos ⟨rfl, none⟩, if_pos none, Header.get_set]
    · rw [if_neg none, copied, if_neg fun h => none h.2, copied]
  unfold idemKey forwardHeader
  dsimp only
  split
  · exact keyed
  · rw [Header.get_set_ne _ _ (by decide)]
    exact keyed

theorem idemKey_ne_empty (req : Request) (x : Draws) : idemKey req x ≠ "" := by
  rw [idemKey_eq]
  split
  · exact newIdemKey_ne_empty x
  · next given => exact given

/-! ## The way there -/

theorem proxied_lawful : (proxied codec cfg).Lawful := behind_lawful

/-- The state of the gateway, the chaos proxy and the app. -/
abbrev State (codec : EventCodec) :=
  Front Request Response (Front Request Response (App.State codec) Chaosproxy.Draws) Draws

/-- The app at the far end. -/
def State.app (w : State codec) : App.State codec := w.env.server.env.server

/-- `Create` number `j` of the database is on behalf of request `g` to the gateway. -/
def Serves (w : State codec) (g j : Nat) : Prop :=
  ∃ h p q, w.env.Relays g h ∧ w.env.server.env.Relays h p ∧ w.app.env.origin[j]? = some (p, q)

theorem app_reachable {w : State codec} (h : (path codec cfg).system.Reachable w) :
    (App.app codec cfg).Reachable w.app :=
  behind_reachable App.site_lawful (behind_reachable proxied_lawful h)

/-- **One key.** Every `Create` on behalf of a request has the key the gateway attached. -/
theorem serves_key {w : State codec} (h : (path codec cfg).system.Reachable w) {g : Nat}
    {req : Request} {x : Draws} {prog : Client Request Response Response}
    (runs : w.procs[g]? = some ((req, x), prog)) {j : Nat} (serves : Serves w g j) :
    ∃ c, w.app.env.db.calls[j]? = some c ∧ c.key = idemKey req x := by
  obtain ⟨h', p, q, toProxy, toApp, origin⟩ := serves
  obtain ⟨q₁, _, sent, mine, header, handled⟩ :=
    relayed proxied_lawful (forward_sends cfg.json "POST") h toProxy
  cases runs.symm.trans mine
  obtain ⟨q₂, _, sent₂, proxying, header₂, handled₂⟩ :=
    relayed App.site_lawful (serveHTTP_sends cfg.json) (behind_reachable proxied_lawful h) toApp
  obtain ⟨⟨q₂', _⟩, proxying', same⟩ := Option.map_eq_some_iff.mp handled
  cases proxying.symm.trans proxying'
  obtain ⟨⟨_, runs₃⟩, c, hc, key⟩ := (App.owned (app_reachable h)).calls j p q origin
  refine ⟨c, hc, ?_⟩
  obtain ⟨⟨q₃, _⟩, runs₃', request⟩ := Option.bind_eq_some_iff.mp handled₂
  cases runs₃.symm.trans runs₃'
  rw [App.key_of_request request key, header₂, same, header]
  rfl

/-! ## The way back -/

/-- What a hop makes of an answer it hands on. -/
theorem vouched_through {json : Handlers.Json} {messages : List MessageRow} {key : String}
    {r : Response} (h : App.Vouched json messages key r) (header : Header) (cut : Option Nat) :
    App.Vouched json messages key ⟨r.status, header, through cut r.body⟩ := by
  intro created
  obtain ⟨m, row, stored, under, id, body⟩ := h created
  exact ⟨m, row, stored, under, id, (through_isPrefix cut r.body).trans body⟩

section Proxy

variable {client : Request → Chaosproxy.Draws → Client Request Response Response}
  (caller : Nat × Request × Chaosproxy.Draws) (s : Wire Request (App.State codec))
  (reached : (App.site codec cfg).system.Reachable s.server)

include reached

/-- An attempt keeps what follows it keeps. -/
theorem attempt_promised (out : Request) (x : Chaosproxy.Draws)
    {next : Response → Client Request Response Response}
    (rest : ∀ resp (t : Wire Request (App.State codec)),
      (App.site codec cfg).system.Reachable t.server → App.Promised cfg out resp t.server →
      (App.site codec cfg).Assures client caller (next resp) (App.Promised cfg out) t) :
    (App.site codec cfg).Assures client caller (Chaosproxy.attempt cfg.json out x next)
      (App.Promised cfg out) s := by
  unfold Chaosproxy.attempt
  split
  · refine (call_safe App.site_promise caller out s).bind fun result t holds => ?_
    split
    · exact ⟨holds.1, nofun⟩
    · next resp => exact rest resp t holds.1 (holds.2 resp rfl)
  · exact ⟨reached, nofun⟩

/-- The loop of the proxy hands on an answer of the app. -/
theorem loop_promised (out : Request) (x : Chaosproxy.Draws) (left : Nat) :
    (App.site codec cfg).Assures client caller (Chaosproxy.loop cfg.json out x left)
      (App.Promised cfg out) s := by
  induction left generalizing s with
  | zero =>
    refine attempt_promised caller s reached out x fun resp t reached promised => ?_
    exact ⟨reached, vouched_through promised _ _⟩
  | succ left ih =>
    refine attempt_promised caller s reached out x fun _ t reached _ => ?_
    exact ih t reached

/-- `ServeHTTP` hands on what the app promised to the request. -/
theorem serveHTTP_promised (req : Request) (x : Chaosproxy.Draws) :
    (App.site codec cfg).Assures client caller (Chaosproxy.serveHTTP cfg.json req x)
      (App.Promised cfg req) s := by
  unfold Chaosproxy.serveHTTP
  split
  · exact ⟨reached, nofun⟩
  · split
    · exact loop_promised caller s reached { req with
        body := req.body.take Chaosproxy.bodyLimit, remoteAddr := x.address } x _
    · exact ⟨reached, nofun⟩

end Proxy

/-- What the proxy promises to a request: what the app does. -/
theorem proxied_promise :
    (proxied codec cfg).Promise (fun req r w => App.Promised cfg req r w.env.server) where
  kept := by
    intro w p req r reached handled result
    obtain ⟨⟨⟨req', x⟩, prog⟩, runs, rfl⟩ := Option.map_eq_some_iff.mp handled
    simp only [proxied, behind, runs] at result
    split at result
    · next eq =>
      cases eq
      cases result
      refine behind_promise (G := fun q r w => App.Promised cfg q.1 r w) App.site_lawful
        App.site_promise.stable ?_ reached runs
      intro i q s reached
      exact serveHTTP_promised (i, q) s reached q.1 q.2
    · cases result
  stable := by
    intro w w' req r reached run promised
    exact App.site_promise.stable (behind_reachable App.site_lawful reached)
      (behind_runs App.site_lawful run) promised

/-- `proxyCreate` hands on what the proxy promised, under the key it attached. -/
theorem proxyCreate_promised {client : Request → Draws → Client Request Response Response}
    (caller : Nat × Request × Draws)
    (s : Wire Request (Front Request Response (App.State codec) Chaosproxy.Draws))
    (reached : (proxied codec cfg).system.Reachable s.server) (req : Request) (x : Draws) :
    (proxied codec cfg).Assures client caller (proxyCreate cfg.json req x)
      (fun r v =>
        App.Vouched cfg.json v.env.server.env.db.tables.messages (idemKey req x) r) s := by
  unfold proxyCreate forward
  split
  · refine (call_safe proxied_promise caller _ s).bind fun result t holds => ?_
    split
    · exact ⟨holds.1, nofun⟩
    · next resp => exact ⟨holds.1, vouched_through (holds.2 resp rfl) _ _⟩
  · exact ⟨reached, nofun⟩

/-- What the gateway answers is backed by the store, under the key it attached. -/
theorem path_promise {w : State codec} (h : (path codec cfg).system.Reachable w) {g : Nat}
    {req : Request} {x : Draws} {r : Response} (runs : w.procs[g]? = some ((req, x), .ret r)) :
    App.Vouched cfg.json w.app.env.db.tables.messages (idemKey req x) r := by
  have inFront : ((proxied codec cfg).behind (proxyCreate cfg.json)).system.Reachable w := h
  have backed := behind_promise (G := fun q r v =>
      App.Vouched cfg.json v.env.server.env.db.tables.messages (idemKey q.1 q.2) r)
    proxied_lawful ?_ (fun i q s reached =>
      proxyCreate_promised (i, q) s reached q.1 q.2) inFront runs
  · exact backed
  · intro v v' q r reached run vouched
    exact vouched.grow (App.app_later (behind_reachable App.site_lawful reached)
      (behind_runs App.site_lawful run)).messages

/-! ## At most one row -/

/-- `Create` number `j` committed `row` on behalf of request `g` to the gateway. -/
def Commits (w : State codec) (g j : Nat) (row : MessageRow) : Prop :=
  Serves w g j ∧ ∃ c, w.app.env.db.calls[j]? = some c ∧ c.committed = some row

/-- What a request commits is the row under its key. -/
theorem Commits.under {w : State codec} (h : (path codec cfg).system.Reachable w) {g : Nat}
    {req : Request} {x : Draws} {prog : Client Request Response Response}
    (runs : w.procs[g]? = some ((req, x), prog)) {j : Nat} {row : MessageRow}
    (commits : Commits w g j row) :
    row ∈ w.app.env.db.tables.messages ∧ row.idemKey = some (idemKey req x) := by
  obtain ⟨serves, c, hc, committed⟩ := commits
  obtain ⟨c', hc', key⟩ := serves_key h runs serves
  cases hc.symm.trans hc'
  have good := (App.app_consistent (app_reachable h)).calls c (List.mem_of_getElem? hc)
  have done := good.committed row committed
  refine ⟨done.stored, ?_⟩
  rw [done.written, ← key]
  exact nullIf_of_ne (key ▸ idemKey_ne_empty req x)

/-- A label of the path. -/
abbrev Label := Move (Request × Draws) (Option Nat)
  (Quiet (Move (Request × Chaosproxy.Draws) (Option Nat)
    (Quiet (Move App.Incoming Answer App.Quiet) App.Checks)) Chaosproxy.Draws)

/-- A step of the proxy. -/
def atProxy (l : Move (Request × Chaosproxy.Draws) (Option Nat)
    (Quiet (Move App.Incoming Answer App.Quiet) App.Checks)) : Label :=
  .background (.server l)

/-- A step of the app. -/
def atApp (l : Move App.Incoming Answer App.Quiet) : Label := atProxy (.background (.server l))

/-- A statement of a `Create`. -/
def atStore (j : Nat) (answer : Answer) : Label := atApp (.background (.store (.exec j answer)))

/-- An app with one broker. -/
def brokerApp : Handlers.Config := ⟨Handlers.plainJson, ["nats"], false, false, false⟩

/-- A message without a key. -/
def keyless : Request := ⟨"POST", "/gw/messages", Header.empty, [97], "10.0.0.1:5000"⟩

/-- Sixteen zero bytes are drawn. -/
def zeroes : Draws := ⟨some (Vector.replicate 16 0), 0, true, "10.0.0.2:5000", none⟩

/-- Requests are repeated. -/
def repeats : Chaosproxy.Draws := ⟨⟨0, true, 0, 0⟩, 0, true, true, "10.0.0.3:5000", none⟩

/-- The proxy repeats the request. The answer to the first commit is lost, and the second `Create`
finds its row. -/
def repeated : List Label :=
  [.arrive (keyless, zeroes), .go 0 none, .background (.deliver 0 repeats),
    atProxy (.go 0 none), atProxy (.background (.deliver 0 ⟨true, false⟩)),
    atApp (.go 0 .ok), atStore 0 .ok, atStore 0 .ok, atStore 0 .lost, atApp (.go 0 .ok),
    atStore 0 .ok,
    atProxy (.go 0 (some 0)),
    atProxy (.go 0 none), atProxy (.background (.deliver 1 ⟨true, false⟩)),
    atApp (.go 1 .ok), atStore 1 .ok, atStore 1 .ok, atStore 1 .ok, atApp (.go 1 .ok),
    atApp (.go 1 .ok),
    atProxy (.go 0 (some 1)), .go 0 (some 0)]

/-- Everything just started. -/
def startedPath : State plainCodec := ⟨⟨⟨⟨App.startedApp, [], []⟩, [], []⟩, [], []⟩, [], []⟩

end OtusApp.Gateway
