import OtusApp.Broker.Client
import OtusApp.Go.Strconv
import OtusApp.Lib.Acks

/-!
# RabbitMQ

`internal/broker/rabbit.go` over the AMQP client, and a queue of the server. A socket, the
connection over it and the channel over that go by one number, the socket's.

The server keeps every message it confirmed until it is acknowledged. It pushes a message to one
consumer at a time, up to its prefetch, and takes back what a connection left unacknowledged once it
has noticed that the connection is gone, which the client may learn before or after it. An
acknowledgement is only written to the socket: it takes effect at once, later, or never, and not
after the server has given up on the connection.
-/

namespace OtusApp.Broker.Rabbit

open Messaging Go Program
open scoped Acks

/-- A call of the AMQP client, of the socket or of the context. `afterFunc` arms the closing of a
socket for when the context is done, `stop` disarms it, and `cancel` ends the context for which that
socket's was armed. -/
inductive Call (P : Type)
  | dial (url : String)
  | handshake (socket : Nat)
  | channel (conn : Nat)
  | queueDeclare (ch : Nat) (queue : String)
  | confirm (ch : Nat)
  | afterFunc (socket : Option Nat)
  | stop (socket : Option Nat)
  | cancel (socket : Option Nat)
  | closeSocket (socket : Nat)
  | closeConn (conn : Nat)
  | chClosed (ch : Nat)
  | connClosed (conn : Nat)
  | publish (ch : Nat) (queue : String) (messageId : String) (body : P)
  | waitContext (confirmation : Nat)
  | qos (ch : Nat) (prefetch : Int)
  | consume (ch : Nat) (queue : String)
  | next (ch : Nat)
  | ack (ch : Nat) (tag : Nat)

variable {P : Type}

/-- What a call returns, an error as whether it is `nil`. A delivery is the message's number and its
body; `none` is a closed channel of deliveries. -/
def Call.Result : Call P → Type
  | .dial _ => Option Nat
  | .handshake _ => Bool
  | .channel _ => Bool
  | .queueDeclare _ _ => Bool
  | .confirm _ => Bool
  | .afterFunc _ => Unit
  | .stop _ => Unit
  | .cancel _ => Unit
  | .closeSocket _ => Unit
  | .closeConn _ => Unit
  | .chClosed _ => Bool
  | .connClosed _ => Bool
  | .publish .. => Option Nat
  | .waitContext _ => Option Bool
  | .qos _ _ => Bool
  | .consume _ _ => Bool
  | .next _ => Option (Nat × P)
  | .ack _ _ => Bool

/-- A program over the calls. -/
abbrev Code (P : Type) := Broker.Code (Call P) Call.Result

abbrev call (e : Call P) : Code P e.Result := client e

/-- `rabbitConn`. -/
structure RabbitConn where
  urls : List String
  queue : String
  conn : Option Nat
  ch : Option Nat
  socket : Option Nat

/-- The steps of `openRabbitChannel` after the dial, as far as the first that fails. -/
def declare (socket : Nat) (queue : String) (confirm : Bool) : Code P Bool := do
  let shaken : Bool ← call (.handshake socket)
  if !shaken then return false
  let opened : Bool ← call (.channel socket)
  if !opened then return false
  let declared : Bool ← call (.queueDeclare socket queue)
  if !declared then return false
  if confirm then call (.confirm socket) else return true

/-- `openRabbitChannel`. The callback of `DialConfig` arms the closing of the socket; the deferred
calls disarm it before they cancel the context it waits for. -/
def openRabbitChannel (url queue : String) (confirm : Bool) : Code P (Option Nat) := do
  let socket : Option Nat ← call (.dial url)
  match socket with
  | none =>
    call (.cancel none)
    return none
  | some socket =>
    call (.afterFunc (some socket))
    let ok ← declare socket queue confirm
    -- `fail`
    if !ok then call (.closeSocket socket)
    call (.stop (some socket))
    call (.cancel (some socket))
    return if ok then some socket else none

namespace RabbitConn

/-- `closeLocked`. -/
def closeLocked (r : RabbitConn) : Code P RabbitConn := do
  match r.conn with
  | none => pure ()
  | some conn => call (.closeConn conn)
  return { r with ch := none, conn := none, socket := none }

/-- The first channel that opens. -/
def dialAny (r : RabbitConn) (confirm : Bool) : List String → Code P (Option Nat × RabbitConn)
  | [] => return (none, r)
  | url :: urls => do
    match ← openRabbitChannel url r.queue confirm with
    | none => dialAny r confirm urls
    | some n => return (some n, { r with conn := some n, ch := some n, socket := some n })

/-- Whether the connection that is kept can be used. -/
def usable (r : RabbitConn) : Code P Bool := do
  match r.ch with
  | none => return false
  | some ch =>
    let chClosed : Bool ← call (.chClosed ch)
    if chClosed then return false
    match r.conn with
    | none => return false
    | some conn =>
      let connClosed : Bool ← call (.connClosed conn)
      return !connClosed

/-- `channel`. -/
def channel (r : RabbitConn) (confirm : Bool) : Code P (Option Nat × RabbitConn) := do
  if ← r.usable then return (r.ch, r)
  let r ← r.closeLocked
  r.dialAny confirm r.urls

end RabbitConn

/-- The attempts of `Publish`. -/
def publishLoop (messageId : String) (payload : P) : Nat → RabbitConn → Code P (Bool × RabbitConn)
  | 0, r => return (false, r)
  | attempts + 1, r => do
    match ← r.channel true with
    | (none, r) => publishLoop messageId payload attempts r
    | (some ch, r) =>
      call (.afterFunc r.socket)
      let conf : Option Nat ← call (.publish ch r.queue messageId payload)
      call (.stop r.socket)
      match conf with
      | none => publishLoop messageId payload attempts (← r.closeLocked)
      | some conf =>
        let confirmed : Option Bool ← call (.waitContext conf)
        return (confirmed == some true, r)

/-- `rabbitPublisher.Publish`. -/
def publish (codec : EventCodec) (r : RabbitConn) (ev : MessageCreated) :
    Code codec.Payload (Bool × RabbitConn) :=
  match codec.marshal ev with
  | none => return (false, r)
  | some payload => publishLoop (formatInt ev.id 10) payload 2 r

/-- How a pass of the loop over the deliveries ends. -/
inductive Passed
  | returned
  | interrupted
  | unfinished

/-- `for d := range deliveries`, as far as `turns` deliveries. -/
def deliveries (codec : EventCodec) (handle : Handle (Call codec.Payload) Call.Result) (ch : Nat) :
    Nat → Nat → Code codec.Payload (Passed × Nat)
  | 0, attempt => return (.unfinished, attempt)
  | turns + 1, attempt => do
    let d : Option (Nat × codec.Payload) ← call (.next ch)
    match d with
    | none => return (.interrupted, attempt)
    | some (tag, body) =>
      match codec.unmarshal body with
      | none => return (.returned, attempt)
      | some ev =>
        let (ok, attempt) ← handle ev attempt
        if !ok then return (.returned, attempt)
        let acked : Bool ← call (.ack ch tag)
        if acked then deliveries codec handle ch turns attempt else return (.returned, attempt)

/-- `rabbitConsumer.Consume`, as far as `turns` iterations of its loop. -/
def consume (codec : EventCodec) (prefetch : Int)
    (handle : Handle (Call codec.Payload) Call.Result) :
    Nat → RabbitConn → Nat → Code codec.Payload (Option (RabbitConn × Nat))
  | 0, _, _ => return none
  | turns + 1, r, attempt => do
    if !(← running) then return some (r, attempt)
    match ← r.channel false with
    | (none, r) =>
      sleep (2 * Duration.second)
      consume codec prefetch handle turns r attempt
    | (some ch, r) =>
      let limited : Bool ← call (.qos ch prefetch)
      if !limited then
        consume codec prefetch handle turns (← r.closeLocked) attempt
      else
        let started : Bool ← call (.consume ch r.queue)
        if !started then
          let r ← r.closeLocked
          sleep Duration.second
          consume codec prefetch handle turns r attempt
        else
          match ← deliveries codec handle ch turns attempt with
          | (.unfinished, _) => return none
          | (.returned, attempt) => return some (r, attempt)
          | (.interrupted, attempt) =>
            if ← running then
              let r ← r.closeLocked
              sleep Duration.second
              consume codec prefetch handle turns r attempt
            else consume codec prefetch handle turns r attempt

/-- `rabbitSettings`. -/
structure Settings where
  urls : List String
  queue : String
  prefetch : Int

/-- `newRabbitPublisher`: neither a publisher nor an error without a URL. -/
def newRabbitPublisher (cfg : Settings) : Code P (Option RabbitConn × Bool) := do
  if cfg.urls = [] then return (none, true)
  match ← (RabbitConn.mk cfg.urls cfg.queue none none none).channel true with
  | (none, _) => return (none, false)
  | (some _, r) => return (some r, true)

/-- `newRabbitConsumer`: it opens nothing. -/
def newRabbitConsumer (cfg : Settings) : Option RabbitConn :=
  if cfg.urls = [] then none else some ⟨cfg.urls, cfg.queue, none, none, none⟩

/-- The package's RabbitMQ. -/
def rabbit (codec : EventCodec) (cfg : Settings) : Client (Call codec.Payload) Call.Result where
  Publisher := RabbitConn
  Consumer := RabbitConn
  publish := publish codec
  newConsumer := return newRabbitConsumer cfg
  consume turns handle r attempt := consume codec cfg.prefetch handle turns r attempt
  close r := do
    let _ ← r.closeLocked
    return ()

/-! ## The queue -/

/-- The state of the server's queue and of the connections to it. `closed` are the connections the
client has closed or seen closed, `gone` those the server has given up on. A publication that was
written is `sent` under its number, and `confirmed` once its message is in the log. `limits` are the
prefetches in force, `consuming` the channels that consume, `unacked` the messages the server counts
as delivered over a connection, and `pushed` what the client has yet to receive. -/
structure Queue (P : Type) where
  ledger : Acks.Ledger P Nat
  dialled : Nat
  closed : List Nat
  gone : List Nat
  armed : List Nat
  sent : List P
  confirmed : List Nat
  limits : List (Nat × Int)
  consuming : List Nat
  unacked : List (Nat × Nat)
  pushed : List (Nat × Nat)

/-- How a call ends. -/
inductive Choice
  | done
  | ok (ok : Bool)
  | written (ok : Bool)
  | waited (answer : Option Bool)
  | received (k : Nat)
  | interrupted
  | acked (ok : Bool) (now : Bool)

/-- What happens besides. -/
inductive Background
  | fire (socket : Nat)
  | drop (conn : Nat)
  | forget (conn : Nat)
  | store (publication : Nat)
  | push (conn : Nat) (k : Nat)
  | land (conn : Nat) (k : Nat)

namespace Queue

def empty : Queue P := ⟨.empty, 0, [], [], [], [], [], [], [], [], []⟩

/-- The client is done with a connection. -/
def close (s : Queue P) (n : Nat) : Queue P := { s with closed := n :: s.closed }

/-- The server holds the message as delivered over the connection. -/
def Delivered (s : Queue P) (conn k : Nat) : Prop := (conn, k) ∈ s.unacked ∧ conn ∉ s.gone

instance (s : Queue P) (conn k : Nat) : Decidable (s.Delivered conn k) :=
  inferInstanceAs (Decidable (_ ∧ _))

/-- The acknowledgement takes effect. -/
def settle (s : Queue P) (conn k : Nat) : Queue P :=
  { s with ledger := s.ledger.ack k, unacked := s.unacked.erase (conn, k) }

/-- There is room for one more message at the consumer; a prefetch of 0 is no limit. -/
def Room (s : Queue P) (conn : Nat) : Prop :=
  ∀ limit, s.limits.lookup conn = some limit → limit = 0 ∨
  (s.unacked.countP (·.1 = conn) : Int) < limit

instance (s : Queue P) (conn : Nat) : Decidable (s.Room conn) :=
  match h : s.limits.lookup conn with
  | none => isTrue fun _ found => by rw [h] at found; cases found
  | some limit => decidable_of_iff (limit = 0 ∨ (s.unacked.countP (·.1 = conn) : Int) < limit)
      ⟨fun room _ found => by rw [h] at found; cases found; exact room, fun room => room limit h⟩

/-- How a call is answered. -/
def respond (s : Queue P) : (e : Call P) → Choice → Option (e.Result × Queue P)
  | .dial _, .ok ok =>
    some (if ok then (some s.dialled, { s with dialled := s.dialled + 1 }) else (none, s))
  | .handshake _, .ok ok => some (ok, s)
  | .channel _, .ok ok => some (ok, s)
  | .queueDeclare _ _, .ok ok => some (ok, s)
  | .confirm _, .ok ok => some (ok, s)
  | .afterFunc none, .done => some ((), s)
  | .afterFunc (some socket), .done => some ((), { s with armed := socket :: s.armed })
  | .stop none, .done => some ((), s)
  | .stop (some socket), .done => some ((), { s with armed := s.armed.erase socket })
  | .cancel none, .done => some ((), s)
  | .cancel (some socket), .done => some ((), if socket ∈ s.armed then s.close socket else s)
  | .closeSocket n, .done => some ((), s.close n)
  | .closeConn n, .done => some ((), s.close n)
  | .chClosed n, .done => some (decide (n ∈ s.closed), s)
  | .connClosed n, .done => some (decide (n ∈ s.closed), s)
  -- a publication that fails may have been written all the same
  | .publish _ _ _ body, .written ok =>
    some (if ok then some s.sent.length else none, { s with sent := s.sent ++ [body] })
  | .waitContext n, .waited answer =>
    if answer = some true ∧ n ∉ s.confirmed then none else some (answer, s)
  | .qos ch prefetch, .ok ok =>
    some (ok, if ok then { s with limits := (ch, prefetch) :: s.limits } else s)
  | .consume ch _, .ok ok => some (ok, if ok then { s with consuming := ch :: s.consuming } else s)
  | .next ch, .received k =>
    if (ch, k) ∈ s.pushed then
      (s.ledger.log[k]?).map fun body =>
        (some (k, body), { s with pushed := s.pushed.erase (ch, k) })
    else none
  | .next _, .interrupted => some (none, s)
  | .ack ch k, .acked ok now =>
    if now ∧ s.Delivered ch k then some (ok, s.settle ch k)
    else some (ok, { s with ledger := s.ledger.send ch k })
  | _, _ => none

/-- What moves by itself. -/
def background (s : Queue P) : Background → Option (Queue P)
  | .fire n => if n ∈ s.armed then some (s.close n) else none
  | .drop n => some (s.close n)
  | .forget n => some { s with gone := n :: s.gone, unacked := s.unacked.filter (·.1 ≠ n) }
  | .store n =>
    if n ∈ s.confirmed then none
    else (s.sent[n]?).map fun body =>
      { s with ledger := s.ledger.put body, confirmed := n :: s.confirmed }
  | .push conn k =>
    if conn ∈ s.consuming ∧ conn ∉ s.gone ∧ s.ledger.Held k ∧ k ∉ s.unacked.map Prod.snd ∧
      s.Room conn then
      some { s with unacked := (conn, k) :: s.unacked, pushed := s.pushed ++ [(conn, k)] }
    else none
  | .land conn k =>
    if (conn, k) ∈ s.ledger.late ∧ s.Delivered conn k then some (s.settle conn k) else none

end Queue

/-- RabbitMQ as its clients see it. -/
def service (P : Type) : Service (Call P) Call.Result (Queue P) Choice Background :=
  ⟨Queue.respond, Queue.background⟩

end OtusApp.Broker.Rabbit
