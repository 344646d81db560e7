import OtusApp.Broker.Rabbit
import OtusApp.Laws.Broker.Settled

/-!
# RabbitMQ delivers at least once

The queue keeps what it has taken until it is acknowledged, and the client acknowledges a delivery
only when the handler has returned without an error (`rabbit_careful`). A publication that returns
`nil` was confirmed, and what the server has confirmed is in the queue's log (`rabbit_confirms`). So
an event that was published is still held or has been filed (`rabbit_at_least_once`), whatever
connections break and however late an acknowledgement arrives.
-/

namespace OtusApp.Broker.Rabbit

open Messaging Program Transition
open Projection (Config Stored)

/-! ## What a call does to the queue -/

section

variable {P : Type} {s t : Queue P} {e : Call P}

/-- What the answer to a call can do to the messages of a queue. -/
inductive Responds (s : Queue P) (e : Call P) : Queue P → Prop
  | aside {t : Queue P} (ledger : t.ledger = s.ledger) (sent : t.sent = s.sent)
      (confirmed : t.confirmed = s.confirmed) :
      Responds s e t
  | write {ch : Nat} {queue messageId : String} {body : P}
      (publishes : e = .publish ch queue messageId body) :
      Responds s e { s with sent := s.sent ++ [body] }
  | settle {ch k : Nat} (acks : e = .ack ch k) : Responds s e (s.settle ch k)
  | send {ch k : Nat} (acks : e = .ack ch k) : Responds s e { s with ledger := s.ledger.send ch k }

theorem respond_responds {c : Choice} {r : e.Result} (h : s.respond e c = some (r, t)) :
    Responds s e t := by
  unfold Queue.respond at h
  split at h
  case h_1 ok =>
    cases ok
    · cases h
      exact .aside rfl rfl rfl
    · cases h
      exact .aside rfl rfl rfl
  case h_11 socket =>
    cases h
    split <;> exact .aside rfl rfl rfl
  case h_16 =>
    cases h
    exact .write rfl
  case h_17 =>
    obtain ⟨_, same⟩ := Option.ite_none_left_eq_some.mp h
    cases same
    exact .aside rfl rfl rfl
  case h_18 | h_19 =>
    cases h
    split <;> exact .aside rfl rfl rfl
  case h_20 =>
    obtain ⟨_, got⟩ := Option.ite_none_right_eq_some.mp h
    obtain ⟨body, _, same⟩ := Option.map_eq_some_iff.mp got
    cases same
    exact .aside rfl rfl rfl
  case h_22 =>
    split at h
    · cases h
      exact .settle rfl
    · cases h
      exact .send rfl
  case h_23 => cases h
  all_goals
    cases h
    exact .aside rfl rfl rfl

/-- What a move can do. -/
inductive Drifts (s : Queue P) : Queue P → Prop
  | aside {t : Queue P} (ledger : t.ledger = s.ledger) (sent : t.sent = s.sent)
      (confirmed : t.confirmed = s.confirmed) :
      Drifts s t
  | store {n : Nat} {body : P} (written : s.sent[n]? = some body) :
      Drifts s { s with ledger := s.ledger.put body, confirmed := n :: s.confirmed }
  | land {conn k : Nat} (late : (conn, k) ∈ s.ledger.late) : Drifts s (s.settle conn k)

theorem background_drifts {b : Background} (h : s.background b = some t) : Drifts s t := by
  cases b with
  | fire n =>
    obtain ⟨_, same⟩ := Option.ite_none_right_eq_some.mp h
    cases same
    exact .aside rfl rfl rfl
  | drop n | forget n =>
    cases h
    exact .aside rfl rfl rfl
  | store n =>
    obtain ⟨_, got⟩ := Option.ite_none_left_eq_some.mp h
    obtain ⟨body, written, rfl⟩ := Option.map_eq_some_iff.mp got
    exact .store written
  | push conn k =>
    obtain ⟨_, same⟩ := Option.ite_none_right_eq_some.mp h
    cases same
    exact .aside rfl rfl rfl
  | land conn k =>
    obtain ⟨⟨late, _⟩, same⟩ := Option.ite_none_right_eq_some.mp h
    cases same
    exact .land late

end

/-! ## The ledger -/

/-- The message a call acknowledges. -/
def acks {P : Type} : Call P → Option Nat
  | .ack _ k => some k
  | _ => none

/-- The message an answer hands out. -/
def gives {P : Type} : (e : Call P) → e.Result → Option (Nat × P)
  | .next _, d => d
  | _, _ => none

/-- The ledger of the queue. -/
def view (codec : EventCodec) : View codec (service codec.Payload) Nat where
  ledger := Queue.ledger
  acks := acks
  gives := gives
  call s e c r t h := by
    cases respond_responds h with
    | aside ledger =>
      rw [ledger]
      exact .stay
    | write => exact .stay
    | settle is =>
      subst is
      exact .ack rfl
    | send is =>
      subst is
      exact .send _ rfl
  given s e c r t h k p got := by
    cases e with
    | next ch =>
      cases c with
      | received k' =>
        obtain ⟨_, found⟩ := Option.ite_none_right_eq_some.mp h
        obtain ⟨body, entry, same⟩ := Option.map_eq_some_iff.mp found
        cases same
        cases got
        exact entry
      | interrupted =>
        cases h
        cases got
      | _ => cases h
    | _ => cases got
  move s b t h := by
    cases background_drifts h with
    | aside ledger =>
      rw [ledger]
      exact .stay
    | store => exact .put _
    | land late => exact .land late

/-! ## The client is careful -/

variable {codec : EventCodec}

theorem declare_silent (socket : Nat) (queue : String) (confirm : Bool) :
    (declare socket queue confirm).All (Silent (view codec)) := by
  refine silent_client rfl fun (shaken : Bool) => ?_
  cases shaken with
  | false => trivial
  | true =>
    refine silent_client rfl fun (opened : Bool) => ?_
    cases opened with
    | false => trivial
    | true =>
      refine silent_client rfl fun (declared : Bool) => ?_
      cases declared with
      | false => trivial
      | true =>
        cases confirm with
        | false => trivial
        | true => exact ⟨rfl, fun _ => trivial⟩

theorem openRabbitChannel_silent (url queue : String) (confirm : Bool) :
    (openRabbitChannel url queue confirm).All (Silent (view codec)) := by
  refine silent_client rfl fun (socket : Option Nat) => ?_
  cases socket with
  | none => exact silent_client rfl fun _ => trivial
  | some socket =>
    refine silent_client rfl fun _ =>
      Prog.all_bind (declare_silent socket queue confirm) fun ok => ?_
    have disarm : ∀ ok : Bool, (do
        call (.stop (some socket))
        call (.cancel (some socket))
        return if ok then some socket else none : Code codec.Payload (Option Nat)).All
          (Silent (view codec)) :=
      fun ok => silent_client rfl fun _ => silent_client rfl fun _ => trivial
    cases ok with
    | false => exact silent_client rfl fun _ => disarm false
    | true => exact disarm true

theorem closeLocked_silent (r : RabbitConn) : r.closeLocked.All (Silent (view codec)) := by
  rw [RabbitConn.closeLocked]
  cases r.conn with
  | none => trivial
  | some conn => exact ⟨rfl, fun _ => trivial⟩

theorem dialAny_silent (r : RabbitConn) (confirm : Bool) (urls : List String) :
    (r.dialAny confirm urls).All (Silent (view codec)) := by
  induction urls with
  | nil => trivial
  | cons url urls ih =>
    refine Prog.all_bind (openRabbitChannel_silent url r.queue confirm) fun opened => ?_
    cases opened with
    | none => exact ih
    | some n => trivial

theorem usable_silent (r : RabbitConn) : r.usable.All (Silent (view codec)) := by
  rw [RabbitConn.usable]
  cases r.ch with
  | none => trivial
  | some ch =>
    refine ⟨rfl, fun (closed : Bool) => ?_⟩
    cases closed with
    | true => trivial
    | false =>
      cases r.conn with
      | none => trivial
      | some conn => exact ⟨rfl, fun _ => trivial⟩

theorem channel_silent (r : RabbitConn) (confirm : Bool) :
    (r.channel confirm).All (Silent (view codec)) := by
  refine Prog.all_bind (usable_silent r) fun usable => ?_
  cases usable with
  | true => trivial
  | false => exact Prog.all_bind (closeLocked_silent r) fun r => dialAny_silent r confirm r.urls

theorem publishLoop_silent (messageId : String) (payload : codec.Payload) (attempts : Nat)
    (r : RabbitConn) :
    (publishLoop messageId payload attempts r).All (Silent (view codec)) := by
  induction attempts generalizing r with
  | zero => trivial
  | succ attempts ih =>
    refine Prog.all_bind (channel_silent r true) ?_
    rintro ⟨ch, r⟩
    cases ch with
    | none => exact ih r
    | some ch =>
      refine silent_client rfl fun _ => silent_client rfl fun (conf : Option Nat) =>
        silent_client rfl fun _ => ?_
      cases conf with
      | none => exact Prog.all_bind (closeLocked_silent r) ih
      | some conf => exact silent_client rfl fun _ => trivial

theorem publish_silent (r : RabbitConn) (ev : MessageCreated) :
    (publish codec r ev).All (Silent (view codec)) := by
  rw [publish]
  split
  · trivial
  · exact publishLoop_silent _ _ 2 r

variable {c : Config} {handle : Handle (Call codec.Payload) Call.Result}

/-- A delivery is acknowledged when it was the one received, decoded and handled. -/
theorem deliveries_consumes (h : Handles (view codec) c handle) (ch turns attempt : Nat) :
    Consumes (view codec) c (deliveries codec handle ch turns attempt) := by
  induction turns generalizing attempt with
  | zero => exact .ret _
  | succ turns ih =>
    intro hand done
    refine Goes.client (e := Call.next ch) nofun fun (d : Option (Nat × codec.Payload)) => ?_
    cases d with
    | none => exact Consumes.ret _ _ _
    | some d =>
      obtain ⟨tag, body⟩ := d
      dsimp only
      cases decoded : codec.unmarshal body with
      | none => exact Consumes.ret _ _ _
      | some ev =>
        refine h.bind (fun attempt => .ret _) fun attempt done finished => ?_
        refine Goes.client (e := Call.ack ch tag) ?_ fun (acked : Bool) => ?_
        · rintro _ ⟨⟩
          exact ⟨body, ev, rfl, decoded, finished⟩
        · cases acked with
          | false => exact Consumes.ret _ _ _
          | true => exact ih attempt _ _

theorem consume_consumes (h : Handles (view codec) c handle) (prefetch : Int) (turns : Nat)
    (r : RabbitConn) (attempt : Nat) :
    Consumes (view codec) c (consume codec prefetch handle turns r attempt) := by
  induction turns generalizing r attempt with
  | zero => exact .ret _
  | succ turns ih =>
    have closed : ∀ r : RabbitConn,
      Consumes (view codec) c (r.closeLocked : Code codec.Payload RabbitConn) :=
      fun r => consumes_of_silent (closeLocked_silent r)
    refine .running fun on => ?_
    cases on with
    | false => exact .ret _
    | true =>
      refine (consumes_of_silent (channel_silent r false)).bind ?_
      rintro ⟨ch, r⟩
      cases ch with
      | none => exact .sleep fun _ => ih r attempt
      | some ch =>
        refine .client (e := Call.qos ch prefetch) rfl fun (limited : Bool) => ?_
        cases limited with
        | false => exact (closed r).bind fun r => ih r attempt
        | true =>
          refine .client (e := Call.consume ch r.queue) rfl fun (started : Bool) => ?_
          cases started with
          | false => exact (closed r).bind fun r => .sleep fun _ => ih r attempt
          | true =>
            refine (deliveries_consumes h ch turns attempt).bind ?_
            rintro ⟨passed, attempt⟩
            cases passed with
            | unfinished => exact .ret _
            | returned => exact .ret _
            | interrupted =>
              refine .running fun on => ?_
              cases on with
              | false => exact ih r attempt
              | true => exact (closed r).bind fun r => .sleep fun _ => ih r attempt

theorem rabbit_careful (cfg : Settings) : Careful (view codec) (rabbit codec cfg) where
  publish r ev := publishing_of_silent (publish_silent r ev)
  newConsumer _ := .ret _
  consume _ _ h turns r attempt := consume_consumes h cfg.prefetch turns r attempt
  close _ r := (consumes_of_silent (closeLocked_silent r)).bind fun _ => .ret _

/-! ## A confirmed publication is in the log -/

section

variable {P : Type}

/-- What was confirmed is in the log. -/
def Confirmed (s : Queue P) : Prop :=
  ∀ n ∈ s.confirmed, ∃ (body : P) (k : Nat), s.sent[n]? = some body ∧ s.ledger.log[k]? = some body

/-- Publications and messages keep their numbers. -/
structure Kept (s t : Queue P) : Prop where
  sent : ∀ (n : Nat) (body : P), s.sent[n]? = some body → t.sent[n]? = some body
  log : ∀ (k : Nat) (body : P), s.ledger.log[k]? = some body → t.ledger.log[k]? = some body

theorem Kept.refl (s : Queue P) : Kept s s := ⟨fun _ _ found => found, fun _ _ found => found⟩

theorem Kept.trans {s t u : Queue P} (h : Kept s t) (h' : Kept t u) : Kept s u :=
  ⟨fun n body found => h'.sent n body (h.sent n body found), fun k body found =>
    h'.log k body (h.log k body found)⟩

theorem Confirmed.kept {s t : Queue P} (h : Confirmed s) (kept : Kept s t) {n : Nat}
    (mem : n ∈ s.confirmed) :
    ∃ (body : P) (k : Nat), t.sent[n]? = some body ∧ t.ledger.log[k]? = some body := by
  obtain ⟨body, k, written, logged⟩ := h n mem
  exact ⟨body, k, kept.sent n body written, kept.log k body logged⟩

theorem Responds.kept {s t : Queue P} {e : Call P} (h : Responds s e t) : Kept s t := by
  cases h with
  | aside ledger sent =>
    exact ⟨fun n body found => sent ▸ found, fun k body found => ledger ▸ found⟩
  | write =>
    exact ⟨fun n body found => Rows.getElem?_append_some found _, fun k body found => found⟩
  | settle | send => exact ⟨fun n body found => found, fun k body found => found⟩

theorem Responds.confirmed {s t : Queue P} {e : Call P} (h : Responds s e t) :
    t.confirmed = s.confirmed := by
  cases h with
  | aside _ _ confirmed => exact confirmed
  | write | settle | send => rfl

theorem Drifts.kept {s t : Queue P} (h : Drifts s t) : Kept s t := by
  cases h with
  | aside ledger sent =>
    exact ⟨fun n body found => sent ▸ found, fun k body found => ledger ▸ found⟩
  | store =>
    exact ⟨fun n body found => found, fun k body found => Rows.getElem?_append_some found _⟩
  | land => exact ⟨fun n body found => found, fun k body found => found⟩

theorem Drifts.confirmed {s t : Queue P} (h : Drifts s t) (before : Confirmed s) : Confirmed t := by
  have kept := h.kept
  cases h with
  | aside _ _ confirmed => exact fun n mem => before.kept kept (confirmed ▸ mem)
  | @store n body written =>
    intro m mem
    rcases List.mem_cons.mp mem with rfl | old
    · exact ⟨body, s.ledger.log.length, written, List.getElem?_concat_length⟩
    · exact before.kept kept old
  | land => exact fun n mem => before.kept kept mem

end

/-- The event is in the log. -/
def Logged (codec : EventCodec) (ev : MessageCreated) (s : Queue codec.Payload) : Prop :=
  ∃ (payload : codec.Payload) (k : Nat), codec.marshal ev = some payload ∧
  s.ledger.log[k]? = some payload

/-- A publication that was written is sent under its number. -/
theorem sent_of_publish {P : Type} {s t : Queue P} {ch n : Nat} {queue messageId : String}
    {body : P} {c : Choice}
    (h : s.respond (.publish ch queue messageId body) c = some (some n, t)) :
    t.sent[n]? = some body := by
  cases c with
  | written ok =>
    cases ok with
    | false => cases h
    | true =>
      cases h
      exact List.getElem?_concat_length
  | _ => cases h

theorem confirmed_of_wait {P : Type} {s t : Queue P} {n : Nat} {c : Choice}
    (h : s.respond (.waitContext n) c = some (some true, t)) : n ∈ s.confirmed ∧ t = s := by
  cases c with
  | waited answer =>
    obtain ⟨known, same⟩ := Option.ite_none_left_eq_some.mp h
    cases same
    exact ⟨not_not.mp fun missing => known ⟨rfl, missing⟩, rfl⟩
  | _ => cases h

/-- The attempts return `nil` only with the message in the log. -/
theorem publishLoop_logged {ev : MessageCreated} {payload : codec.Payload}
    (encoded : codec.marshal ev = some payload) (messageId : String) (attempts : Nat)
    (r : RabbitConn) (w : World (Queue codec.Payload)) :
    Safely (service codec.Payload) Confirmed Kept (fun r t => r.1 = true → Logged codec ev t.broker)
      (publishLoop messageId payload attempts r) w := by
  induction attempts generalizing r w with
  | zero => exact Bool.noConfusion
  | succ attempts ih =>
    refine .skip ?_
    rintro ⟨ch, r⟩ w
    cases ch with
    | none => exact ih r w
    | some ch =>
      refine .client fun _ _ _ _ _ _ _ => .client fun w₁ _ _ c (conf : Option Nat) s published => ?_
      refine .client fun w₂ kept _ c' _ s' stopped => ?_
      cases conf with
      | none => exact .skip fun r w => ih r w
      | some conf =>
        have written := kept.sent _ _ (sent_of_publish published)
        have written := (respond_responds stopped).kept.sent _ _ written
        refine .client fun w₃ kept holds c (confirmed : Option Bool) s'' waited returned => ?_
        -- the confirmation is of the publication that was written
        obtain rfl : confirmed = some true := beq_iff_eq.mp returned
        obtain ⟨mem, rfl⟩ := confirmed_of_wait waited
        obtain ⟨body, k, same, logged⟩ := holds conf mem
        cases (kept.sent _ _ written).symm.trans same
        exact ⟨payload, k, encoded, logged⟩

theorem publish_logged (r : RabbitConn) (ev : MessageCreated) (w : World (Queue codec.Payload)) :
    Safely (service codec.Payload) Confirmed Kept (fun r t => r.1 = true → Logged codec ev t.broker)
      (publish codec r ev) w := by
  rw [publish]
  split
  · exact Bool.noConfusion
  · next payload encoded => exact publishLoop_logged encoded _ 2 r w

theorem rabbit_confirms (codec : EventCodec) (cfg : Settings) :
    Confirms (service codec.Payload) (rabbit codec cfg) Confirmed Kept (Logged codec) where
  refl := .refl
  trans _ _ _ := .trans
  call s e c r t holds answers := by
    have responds := respond_responds answers
    refine ⟨fun n mem => holds.kept responds.kept ?_, responds.kept⟩
    rw [← responds.confirmed]
    exact mem
  move s b t holds moved :=
    ⟨(background_drifts moved).confirmed holds, (background_drifts moved).kept⟩
  stable ev s t h kept := by
    obtain ⟨payload, k, encoded, logged⟩ := h
    exact ⟨payload, k, encoded, kept.log k payload logged⟩
  publish := publish_logged

/-! ## At least once -/

/-- Publishers and consumers over a queue that is empty at first. -/
def deployment (codec : EventCodec) (cfg : Settings) (among : Config → Prop) :=
  (service codec.Payload).deployment (rabbit codec cfg) (fun s => s = .empty) among

/-- The state of a deployment. -/
abbrev State (codec : EventCodec) (cfg : Settings) :=
  Pool (Task (rabbit codec cfg)) (Broker.Call (Call codec.Payload))
    (Broker.Call.Result Call.Result) Bool
    (World (Queue codec.Payload))

theorem logged_held_or_filed {cfg : Settings} {among : Config → Prop} {w : State codec cfg}
    (reach : (deployment codec cfg among).Reachable w) {k : Nat} {payload : codec.Payload}
    (found : w.env.broker.ledger.log[k]? = some payload) :
    w.env.broker.ledger.Held k ∨ ∃ ev c, codec.unmarshal payload = some ev ∧ among c ∧
    Filed c ev w.env.stores :=
  held_or_filed (rabbit_careful cfg) (by rintro _ rfl; rfl) reach found

theorem published_held_or_filed {cfg : Settings} {among : Config → Prop} {w : State codec cfg}
    (reach : (deployment codec cfg among).Reachable w) {p : RabbitConn} {ev : MessageCreated}
    (returned : (.publication p ev, .ret true) ∈ w.procs) :
    ∃ k : Nat,
    (∃ payload, codec.marshal ev = some payload ∧ w.env.broker.ledger.log[k]? = some payload) ∧
      (w.env.broker.ledger.Held k ∨ ∃ c, among c ∧ Filed c ev w.env.stores) := by
  obtain ⟨payload, k, encoded, logged⟩ :=
    (rabbit_confirms codec cfg).accepted (by rintro _ rfl; exact nofun) reach returned
  refine ⟨k, ⟨payload, encoded, logged⟩, ?_⟩
  rcases logged_held_or_filed reach logged with held | ⟨ev', c, decoded, configured, filed⟩
  · exact .inl held
  · cases (codec.unmarshal_marshal ev payload encoded).symm.trans decoded
    exact .inr ⟨c, configured, filed⟩

/-- **At least once.** Whatever consumers run, crash and reconnect, whatever connections break and
whatever the server redelivers: an event whose `Publish` returned `nil` is in the queue's log, and a
message of the log is held by the queue, or it was decoded and is filed in every store of a
consumer. So no message that cannot be decoded is ever acknowledged, and none is acknowledged before
its writes took effect. -/
theorem rabbit_at_least_once {cfg : Settings} {among : Config → Prop} {w : State codec cfg}
    (reach : (deployment codec cfg among).Reachable w) :
    (∀ p ev, (.publication p ev, .ret true) ∈ w.procs →
      ∃ k : Nat, (∃ payload, codec.marshal ev = some payload ∧
      w.env.broker.ledger.log[k]? = some payload) ∧
      (w.env.broker.ledger.Held k ∨ ∃ c, among c ∧ Filed c ev w.env.stores)) ∧
    ∀ (k : Nat) payload, w.env.broker.ledger.log[k]? = some payload → w.env.broker.ledger.Held k ∨
      ∃ ev c, codec.unmarshal payload = some ev ∧ among c ∧ Filed c ev w.env.stores :=
  ⟨fun _ _ returned => published_held_or_filed reach returned, fun _ _ found =>
    logged_held_or_filed reach found⟩

/-- One node. -/
def oneNode : Settings := ⟨["amqp://rabbit-1"], "otus.messages", 32⟩

/-- An event is published and consumed; the acknowledgement is written, and lands only after the
consumer went on. -/
def lateAck :
    List (Move (Task (rabbit plainCodec oneNode)) (Broker.Choice Choice) (Quiet Background)) :=
  let go (i : Nat) (c : Choice) := Move.go i (.client c)
  [.arrive (.publication ⟨oneNode.urls, oneNode.queue, none, none, none⟩ (Projection.createdAt 7)),
    go 0 (.ok true), go 0 .done, go 0 (.ok true), go 0 (.ok true), go 0 (.ok true), go 0 (.ok true),
    go 0 .done, go 0 .done,
    go 0 .done, go 0 (.written true), go 0 .done, .background (.broker (.store 0)),
    go 0 (.waited (some true)),
    .arrive (.consumer (Projection.bothStores "rabbitmq") 4), .go 1 (.ok true), .go 1 (.ok true),
    go 1 (.ok true), go 1 .done, go 1 (.ok true), go 1 (.ok true), go 1 (.ok true),
    go 1 .done, go 1 .done,
    go 1 (.ok true), go 1 (.ok true), .background (.broker (.push 1 0)), go 1 (.received 0),
    .go 1 (.fate .done),
    .go 1 (.fate .done), go 1 (.acked true false), .background (.broker (.land 1 0))]

theorem rabbit_at_least_once_late_ack :
    ∃ w, (deployment plainCodec oneNode fun _ => True).Reachable w ∧
    w.env.broker.ledger.acked = [0] ∧ ∃ c, Filed c (Projection.createdAt 7) w.env.stores := by
  have replayed : ∃ w, System.replay (fun s e => if true then ((service plainCodec.Payload).machine
      (rabbit plainCodec oneNode)).step s e else none) ⟨⟨.empty, Projection.empty⟩, [], []⟩
        lateAck = some w ∧
      w.env.broker.ledger.log = [Projection.createdAt 7] ∧ w.env.broker.ledger.acked = [0] ∧
      w.procs.head? = some (.publication ⟨oneNode.urls, oneNode.queue, none, none, none⟩
        (Projection.createdAt 7), .ret true) :=
    ⟨_, rfl, rfl, rfl, rfl⟩
  obtain ⟨w, run, log, acked, first⟩ := replayed
  have reached : (deployment plainCodec oneNode fun _ => True).Reachable w :=
    ⟨_, ⟨⟨rfl, rfl⟩, rfl, rfl⟩, System.Runs.of_checked (fun _ _ _ _ _ _ => trivial) run⟩
  obtain ⟨k, ⟨payload, -, found⟩, held | filed⟩ :=
    (rabbit_at_least_once reached).1 _ _ (List.mem_of_mem_head? first)
  · rw [log] at found
    have bound := (List.getElem?_eq_some_iff.mp found).1
    obtain rfl : k = 0 := Nat.lt_one_iff.mp bound
    exact absurd (acked ▸ List.mem_cons_self) held.2
  · obtain ⟨c, -, filed⟩ := filed
    exact ⟨w, reached, acked, c, filed⟩

end OtusApp.Broker.Rabbit
