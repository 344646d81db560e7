import OtusApp.Lib.Program

/-!
# Clients of a server

A `Site` is a server seen from outside: a state that steps, takes requests in, and shows for each of
them which request it is and, once there is one, its result.

`Site.behind` puts a client in front of a site, and is a site again: each request it takes in runs a
program that sends requests on to the site behind it and takes their results. The wire between them
may do what a network can: what was sent is delivered any number of times, at any moment or never,
and its sender is given the result of one of the deliveries, or an error.

Two facts carry over a hop. A delivered request was sent by the program of a request in front, and
is one that program sends (`relayed`); and if each result behind keeps a promise to its request, so
does each result in front, as far as its program passes the promise on (`behind_promise`).
-/

namespace Hop

open Transition Program

/-- A server seen from outside. `D` is what the arrival of a request leaves open. -/
structure Site (Req Res W L D : Type) where
  init : W → Prop
  step : W → L → Option W
  accept : W → Req → D → Option (Nat × W)
  handles : W → Nat → Option Req
  result : W → Nat → Option Res

/-- The site as a transition system. -/
def Site.system {Req Res W L D : Type} (site : Site Req Res W L D) : System W L :=
  System.ofStep site.init site.step

/-- A request is taken in by a step, under a number of its own, and keeps it. -/
structure Site.Lawful {Req Res W L D : Type} (site : Site Req Res W L D) : Prop where
  accept_step : ∀ {w req d p w'}, site.accept w req d = some (p, w') → ∃ l, site.step w l = some w'
  accept_handles : ∀ {w req d p w'}, site.accept w req d = some (p, w') →
    site.handles w' p = some req
  handles_kept : ∀ {w l w' p req}, site.step w l = some w' → site.handles w p = some req →
    site.handles w' p = some req

/-- What a client does: it sends a request and is given a ticket for it, or waits for the result of
a ticket. -/
inductive Effect (Req : Type)
  | send (req : Req)
  | receive (ticket : Nat)

/-- What it is answered: a result that does not come is `none`. -/
def Effect.Answer {Req : Type} (Res : Type) : Effect Req → Type
  | .send _ => Nat
  | .receive _ => Option Res

/-- The code of a client. -/
abbrev Client (Req Res : Type) := Prog (Effect Req) (Effect.Answer Res)

/-- The call of a client: it sends a request and waits for its result. -/
def call {Req Res : Type} (req : Req) : Client Req Res (Option Res) :=
  .call (.send req) fun ticket => .call (.receive ticket) .ret

/-- The wire, and the server at its far end. `sent` has the sender and the request of each ticket;
`deliveries` a ticket and the number under which the server took it in. -/
structure Wire (Req W : Type) where
  server : W
  sent : List (Nat × Req)
  deliveries : List (Nat × Nat)

/-- Request `p` behind is a delivery of what program `i` in front sent. -/
def Wire.Relays {Req W : Type} (s : Wire Req W) (i p : Nat) : Prop :=
  ∃ k req, (k, p) ∈ s.deliveries ∧ s.sent[k]? = some (i, req)

/-- A move of the wire or of the server behind it. -/
inductive Quiet (L D : Type)
  | server (l : L)
  | deliver (ticket : Nat) (d : D)

namespace Site

variable {Req Res W L D X : Type} (site : Site Req Res W L D) (client : Req → X →
    Client Req Res Res)

/-- How the wire answers a client: a result is that of a delivery. -/
def respond (s : Wire Req W) (caller : Nat × Req × X) :
    (e : Effect Req) → Option Nat → Option (e.Answer Res × Wire Req W)
  | .send req, _ => some (s.sent.length, { s with sent := s.sent ++ [(caller.1, req)] })
  | .receive _, none => some (none, s)
  | .receive ticket, some p =>
    if (ticket, p) ∈ s.deliveries then (site.result s.server p).map fun r => (some r, s) else none

/-- How the wire moves by itself. -/
def background (s : Wire Req W) : Quiet L D → Option (Wire Req W)
  | .server l => (site.step s.server l).map fun server => { s with server := server }
  | .deliver ticket d =>
    match s.sent[ticket]? with
    | none => none
    | some (_, req) =>
      (site.accept s.server req d).map fun (p, server) =>
        { s with server := server, deliveries := (ticket, p) :: s.deliveries }

/-- The programs in front of a site. -/
def machine : Machine (Req × X) (Effect Req) (Effect.Answer Res) Res (Wire Req W) (Option Nat)
    (Quiet L D) where
  handler q := client q.1 q.2
  arrive s _ := some s
  respond := site.respond
  background := site.background

/-- The state of the programs in front of a site. -/
abbrev Front (Req Res W X : Type) :=
    Pool (Req × X) (Effect Req) (Effect.Answer Res) Res (Wire Req W)

/-- The site in front, with nothing sent. -/
def behind : Site Req Res (Front Req Res W X) (Move (Req × X) (Option Nat) (Quiet L D)) X where
  init w := (site.init w.env.server ∧ w.env.sent = [] ∧ w.env.deliveries = []) ∧ w.procs = [] ∧
    w.answered = []
  step := (site.machine client).step
  accept w req x :=
    ((site.machine client).step w (.arrive (req, x))).map fun w' => (w.procs.length, w')
  handles w p := (w.procs[p]?).map fun entry => entry.1.1
  result w p :=
    match w.procs[p]? with
    | some (_, .ret r) => some r
    | _ => none

variable {site client}

theorem behind_lawful : (site.behind client).Lawful where
  accept_step h := by
    simp only [behind, Option.map_eq_some_iff, Prod.mk.injEq] at h
    obtain ⟨w', hstep, _, rfl⟩ := h
    exact ⟨.arrive _, hstep⟩
  accept_handles h := by
    simp only [behind, Option.map_eq_some_iff, Prod.mk.injEq] at h
    obtain ⟨w', hstep, rfl, rfl⟩ := h
    cases hstep
    simp [behind]
  handles_kept hstep h := by
    obtain ⟨⟨q, p⟩, runs, rfl⟩ := Option.map_eq_some_iff.mp h
    obtain ⟨p', runs'⟩ := Machine.request_kept hstep runs
    simp [behind, runs']

/-! ## The wire -/

/-- How a call of program `i` is answered. -/
inductive Answered (site : Site Req Res W L D) (s : Wire Req W) (i : Nat) :
    (e : Effect Req) → e.Answer Res → Wire Req W → Prop
  | sent (req : Req) :
      Answered site s i (.send req) s.sent.length { s with sent := s.sent ++ [(i, req)] }
  | lost (k : Nat) : Answered site s i (.receive k) none s
  | result (k p : Nat) (r : Res) (delivered : (k, p) ∈ s.deliveries)
      (result : site.result s.server p = some r) : Answered site s i (.receive k) (some r) s

theorem answered {s t : Wire Req W} {caller : Nat × Req × X} {e : Effect Req} {c : Option Nat}
    {r : e.Answer Res} (h : (site.machine client).respond s caller e c = some (r, t)) :
    Answered site s caller.1 e r t := by
  cases e with
  | send req =>
    cases h
    exact .sent req
  | receive k =>
    cases c with
    | none =>
      cases h
      exact .lost k
    | some p =>
      simp only [machine, respond] at h
      split at h
      · next delivered =>
        obtain ⟨res, result, eq⟩ := Option.map_eq_some_iff.mp h
        cases eq
        exact .result k p res delivered result
      · cases h

/-- How the wire moves by itself. -/
inductive Moved (site : Site Req Res W L D) (s : Wire Req W) : Wire Req W → Prop
  | server {l : L} {server : W} (hstep : site.step s.server l = some server) :
      Moved site s { s with server := server }
  | delivered {k i p : Nat} {req : Req} {d : D} {server : W} (ticket : s.sent[k]? = some (i, req))
      (taken : site.accept s.server req d = some (p, server)) :
      Moved site s { s with server := server, deliveries := (k, p) :: s.deliveries }

theorem moved {s t : Wire Req W} {b : Quiet L D} (h : site.background s b = some t) :
    Moved site s t := by
  cases b with
  | server l =>
    obtain ⟨server, hstep, rfl⟩ := Option.map_eq_some_iff.mp h
    exact .server hstep
  | deliver k d =>
    simp only [background] at h
    split at h
    · cases h
    · next i req ticket =>
      obtain ⟨⟨p, server⟩, taken, rfl⟩ := Option.map_eq_some_iff.mp h
      exact .delivered ticket taken

/-- What each step of the wire keeps: tickets stay, and the server runs. -/
structure Onward (site : Site Req Res W L D) (s t : Wire Req W) : Prop where
  sent : ∀ (k : Nat) v, s.sent[k]? = some v → t.sent[k]? = some v
  server : site.system.Runs s.server t.server

theorem Onward.refl (s : Wire Req W) : Onward site s s := ⟨fun _ _ h => h, .refl _⟩

theorem Onward.trans {s t r : Wire Req W} (h : Onward site s t) (h' : Onward site t r) :
    Onward site s r :=
  ⟨fun k v hk => h'.sent k v (h.sent k v hk), h.server.trans h'.server⟩

theorem Answered.onward {s t : Wire Req W} {i : Nat} {e : Effect Req} {r : e.Answer Res}
    (h : Answered site s i e r t) : Onward site s t := by
  cases h with
  | sent req =>
    refine ⟨fun k v hk => ?_, .refl _⟩
    rw [List.getElem?_append_left (List.getElem?_eq_some_iff.mp hk).1, hk]
  | lost => exact .refl s
  | result => exact .refl s

theorem Moved.onward (lawful : site.Lawful) {s t : Wire Req W} (h : Moved site s t) :
    Onward site s t := by
  cases h with
  | server hstep => exact ⟨fun _ _ hk => hk, .single hstep⟩
  | delivered ticket taken =>
    obtain ⟨l, hstep⟩ := lawful.accept_step taken
    exact ⟨fun _ _ hk => hk, .single hstep⟩

theorem step_onward (lawful : site.Lawful) {w w' : Front Req Res W X}
    {mv : Move (Req × X) (Option Nat) (Quiet L D)} (h : (site.machine client).step w mv = some w') :
    Onward site w.env w'.env := by
  cases Machine.stepped h with
  | arrive taken =>
    cases taken
    exact .refl _
  | go runs answers => exact (answered answers).onward
  | background moves => exact (moved moves).onward lawful

/-- A run in front is a run behind. -/
theorem behind_runs (lawful : site.Lawful) {w w' : Front Req Res W X}
    (run : (site.behind client).system.Runs w w') :
    site.system.Runs w.env.server w'.env.server := by
  induction run with
  | refl => exact .refl _
  | tail _ next ih =>
    obtain ⟨mv, hstep⟩ := next
    exact ih.trans (step_onward lawful hstep).server

theorem behind_reachable (lawful : site.Lawful) {w : Front Req Res W X}
    (h : (site.behind client).system.Reachable w) : site.system.Reachable w.env.server := by
  obtain ⟨w₀, start, run⟩ := h
  exact ⟨w₀.env.server, start.1.1, behind_runs lawful run⟩

/-- The site in front as its machine. -/
theorem behind_machine {w : Front Req Res W X} (h : (site.behind client).system.Reachable w) :
    ((site.machine client).system
      fun s => site.init s.server ∧ s.sent = [] ∧ s.deliveries = []).Reachable w := h

/-! ## Where a delivery comes from -/

/-- The requests a program sends are among those `asks` says. -/
def Sends (asks : Req × X → Req → Prop) (q : Req × X) : Effect Req → Prop
  | .send req => asks q req
  | .receive _ => True

/-- The call of a client sends its request. -/
theorem call_sends {asks : Req × X → Req → Prop} {q : Req × X} {req : Req} (asked : asks q req) :
    (call req : Client Req Res (Option Res)).All (Sends asks q) :=
  ⟨asked, fun _ => ⟨trivial, fun _ => trivial⟩⟩

/-- A ticket that a step adds. -/
theorem sent_of_step {w w' : Front Req Res W X} {mv : Move (Req × X) (Option Nat) (Quiet L D)}
    (h : (site.machine client).step w mv = some w') {k i : Nat} {req : Req}
    (hk : w'.env.sent[k]? = some (i, req)) :
    w.env.sent[k]? = some (i, req) ∨ ∃ q rest, w.procs[i]? = some (q, .call (.send req) rest) := by
  cases Machine.stepped h with
  | arrive taken =>
    cases taken
    exact .inl hk
  | @go j c q e rest r env runs answers =>
    cases answered answers with
    | sent req' =>
      rcases Rows.getElem?_concat hk with earlier | ⟨_, last⟩
      · exact .inl earlier
      · cases last
        exact .inr ⟨q, rest, runs⟩
    | lost => exact .inl hk
    | result => exact .inl hk
  | background moves =>
    cases moved moves with
    | server => exact .inl hk
    | delivered => exact .inl hk

/-- Each ticket was taken by the program of a request, which sends such requests. -/
theorem sender {asks : Req × X → Req → Prop}
    (all : ∀ q : Req × X, (client q.1 q.2).All (Sends asks q)) {w : Front Req Res W X}
    (h : (site.behind client).system.Reachable w) {k i : Nat} {req : Req}
    (ticket : w.env.sent[k]? = some (i, req)) :
    ∃ q prog, w.procs[i]? = some (q, prog) ∧ asks q req := by
  refine h.invariant (I := fun w => ∀ (k i : Nat) req, w.env.sent[k]? = some (i, req) →
    ∃ q prog, w.procs[i]? = some (q, prog) ∧ asks q req) ?_ ?_ k i req ticket
  · rintro w ⟨⟨_, none, _⟩, _⟩ k i req hk
    rw [none] at hk
    cases hk
  · intro w mv w' reached ih hstep k i req hk
    rcases sent_of_step hstep hk with old | ⟨q, rest, runs⟩
    · obtain ⟨q, prog, runs, asked⟩ := ih k i req old
      obtain ⟨prog', runs'⟩ := Machine.request_kept hstep runs
      exact ⟨q, prog', runs', asked⟩
    · have left := Machine.asks all (behind_machine reached) q _ (List.mem_of_getElem? runs)
      obtain ⟨prog', runs'⟩ := Machine.request_kept hstep runs
      exact ⟨q, prog', runs', left.1⟩

/-- A server that runs on handles what it handled. -/
theorem handles_runs (lawful : site.Lawful) {w w' : W} (run : site.system.Runs w w') {p : Nat}
    {req : Req} (h : site.handles w p = some req) : site.handles w' p = some req := by
  induction run with
  | refl => exact h
  | tail _ next ih =>
    obtain ⟨l, hstep⟩ := next
    exact lawful.handles_kept hstep ih

/-- Each delivery is of a ticket, and the server handles its request. -/
def Delivered (site : Site Req Res W L D) (s : Wire Req W) : Prop :=
  ∀ k p, (k, p) ∈ s.deliveries →
    ∃ i req, s.sent[k]? = some (i, req) ∧ site.handles s.server p = some req

theorem Delivered.onward {s t : Wire Req W} (h : Delivered site s) (lawful : site.Lawful)
    (onward : Onward site s t) (same : t.deliveries = s.deliveries) : Delivered site t := by
  intro k p mem
  obtain ⟨i, req, hk, handled⟩ := h k p (same ▸ mem)
  exact ⟨i, req, onward.sent k _ hk, handles_runs lawful onward.server handled⟩

theorem delivered (lawful : site.Lawful) {w : Front Req Res W X}
    (h : (site.behind client).system.Reachable w) : Delivered site w.env := by
  refine h.invariant (I := fun w => Delivered site w.env) ?_ ?_
  · rintro w ⟨⟨_, _, none⟩, _⟩ k p mem
    rw [none] at mem
    cases mem
  · intro w mv w' reached ih hstep
    have onward := step_onward lawful hstep
    cases Machine.stepped hstep with
    | arrive taken =>
      cases taken
      exact ih
    | go runs answers =>
      cases answered answers with
      | sent => exact ih.onward lawful onward rfl
      | lost => exact ih
      | result => exact ih
    | background moves =>
      cases moved moves with
      | server => exact ih.onward lawful onward rfl
      | @delivered k i p req d server ticket taken =>
        intro k' p' mem
        rcases List.mem_cons.mp mem with new | old
        · cases new
          exact ⟨i, req, ticket, lawful.accept_handles taken⟩
        · obtain ⟨i', req', ticket', handled⟩ := ih k' p' old
          exact ⟨i', req', ticket', handles_runs lawful onward.server handled⟩

/-- **Where a delivery comes from.** The request behind is one that the program in front sends. -/
theorem relayed (lawful : site.Lawful) {asks : Req × X → Req → Prop}
    (all : ∀ q : Req × X, (client q.1 q.2).All (Sends asks q)) {w : Front Req Res W X}
    (h : (site.behind client).system.Reachable w) {i p : Nat} (relays : w.env.Relays i p) :
    ∃ q prog req, w.procs[i]? = some (q, prog) ∧ asks q req ∧
      site.handles w.env.server p = some req := by
  obtain ⟨k, req, mem, ticket⟩ := relays
  obtain ⟨q, prog, runs, asked⟩ := sender all h ticket
  obtain ⟨i', req', ticket', handled⟩ := delivered lawful h k p mem
  cases ticket.symm.trans ticket'
  exact ⟨q, prog, req, runs, asked, handled⟩

/-! ## Promises -/

/-- What every result keeps to its request. -/
structure Promise (site : Site Req Res W L D) (G : Req → Res → W → Prop) : Prop where
  kept : ∀ {w p req r}, site.system.Reachable w → site.handles w p = some req →
    site.result w p = some r → G req r w
  stable : ∀ {w w' req r}, site.system.Reachable w → site.system.Runs w w' → G req r w → G req r w'

/-- The wire of a reachable state. -/
def Sound (site : Site Req Res W L D) (s : Wire Req W) : Prop :=
  site.system.Reachable s.server ∧ Delivered site s

/-- A program of `caller` in front of the site returns only with `G`, whatever the wire and the
server do in between. -/
abbrev Assures (site : Site Req Res W L D) (client : Req → X → Client Req Res Res)
    (caller : Nat × Req × X) {α : Type} (prog : Client Req Res α) (G : α → W → Prop)
    (s : Wire Req W) :
    Prop :=
  prog.Safe (Onward site) ((site.machine client).answersIn (Sound site) caller)
    (fun a t => site.system.Reachable t.server ∧ G a t.server) s

/-- **The call of a client.** What it is given keeps the promise to the request it sent. -/
theorem call_safe {G : Req → Res → W → Prop} (promise : Promise site G) (caller : Nat × Req × X)
    (req : Req) (s : Wire Req W) :
    site.Assures client caller (call req) (fun res w => ∀ r, res = some r → G req r w) s := by
  rintro s₁ _ ticket s₂ ⟨_, c, answers⟩
  have first : Answered site s₁ caller.1 (.send req) ticket s₂ := answered answers
  cases first with
  | sent _ =>
    rintro s₃ onward res s₄ ⟨sound, c, answers⟩
    have second : Answered site s₃ caller.1 (.receive s₁.sent.length) res s₄ := answered answers
    cases second with
    | lost => exact ⟨sound.1, nofun⟩
    | result k p r delivered result =>
      refine ⟨sound.1, ?_⟩
      rintro _ ⟨⟩
      obtain ⟨i, req', ticket, handled⟩ := sound.2 _ p delivered
      have mine := onward.sent _ _ List.getElem?_concat_length
      cases ticket.symm.trans mine
      exact promise.kept sound.1 handled result

/-- **A promise over a hop.** -/
theorem behind_promise (lawful : site.Lawful) {G : Req × X → Res → W → Prop}
    (stable : ∀ {w w' q r}, site.system.Reachable w → site.system.Runs w w' → G q r w → G q r w')
    (triple : ∀ i (q : Req × X) s, site.system.Reachable s.server →
      site.Assures client (i, q) (client q.1 q.2) (G q) s)
    {w : Front Req Res W X} (h : (site.behind client).system.Reachable w) {i : Nat} {q : Req × X}
    {r : Res} (returned : w.procs[i]? = some (q, .ret r)) : G q r w.env.server := by
  have safe : site.Assures client (i, q) (.ret r) (G q) w.env := by
    refine Machine.safe (Sound site) (Onward site)
      (fun q r t => site.system.Reachable t.server ∧ G q r t.server) ?_ Onward.refl
      (fun _ _ _ => Onward.trans) (fun w mv w' _ hstep => step_onward lawful hstep) ?_ ?_
      (behind_machine h) i q _ returned
    · intro w reached
      have inFront : (site.behind client).system.Reachable w := reached
      exact ⟨behind_reachable lawful inFront, delivered lawful inFront⟩
    · intro q r s t holds onward
      exact ⟨holds.1.runs onward.server, stable holds.1 onward.server holds.2⟩
    · rintro i q s _ sound ⟨⟩
      exact triple i q s sound.1
  exact safe.2

end Site

end Hop
