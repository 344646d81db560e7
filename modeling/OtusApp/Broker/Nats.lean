import OtusApp.Broker.Client
import OtusApp.Go.Strconv
import OtusApp.Go.Strings
import OtusApp.Lib.Acks

/-!
# NATS JetStream

`internal/broker/nats.go` over the NATS client, and a stream of the server with its durable
consumer.

A publication carries the event's identifier, and for some time after the stream has stored a
message it confirms another one with the same identifier without storing it. The stream keeps its
messages; what the durable consumer does not have acknowledged is handed out again once its time is
up, and no more than `MaxAckPending` are out at a time. `DoubleAck` returns `nil` only when the
server has confirmed the acknowledgement; one whose answer is lost takes effect at once, later, or
never.
-/

namespace OtusApp.Broker.Nats

open Messaging Go Program
open scoped Acks

/-- A call of the NATS client. A connection and an iterator go by numbers. -/
inductive Call (P : Type)
  | connect (urls : String)
  | jetstream (nc : Nat)
  | createOrUpdateStream (nc : Nat) (stream subject : String) (replicas : Int)
  | createOrUpdateConsumer (nc : Nat) (durable : String) (ackWait : Duration) (maxAckPending : Nat)
  | publish (nc : Nat) (subject msgId : String) (payload : P)
  | messages (nc : Nat) (max : Nat)
  | next (iter : Nat)
  | stop (iter : Nat)
  | nakWithDelay (k : Nat) (delay : Duration)
  | doubleAck (k : Nat)
  | close (nc : Nat)

variable {P : Type}

/-- What `Next` returns: a message with its number in the stream, or an error and whether it says
that the iterator is closed. -/
inductive Next (P : Type)
  | message (k : Nat) (data : P)
  | error (closed : Bool)

/-- What a call returns, an error as whether it is `nil`. -/
def Call.Result : Call P → Type
  | .connect _ => Option Nat
  | .jetstream _ => Bool
  | .createOrUpdateStream .. => Bool
  | .createOrUpdateConsumer .. => Bool
  | .publish .. => Bool
  | .messages _ _ => Option Nat
  | .next _ => Next P
  | .stop _ => Unit
  | .nakWithDelay _ _ => Unit
  | .doubleAck _ => Bool
  | .close _ => Unit

/-- A program over the calls. -/
abbrev Code (P : Type) := Broker.Code (Call P) Call.Result

abbrev call (e : Call P) : Code P e.Result := client e

/-- `natsSettings`. -/
structure Settings where
  urls : List String
  stream : String
  subject : String
  durable : String
  replicas : Int

/-- `natsConnect`: the connection, and whether the error is `nil`. -/
def natsConnect (cfg : Settings) : Code P (Option Nat × Bool) := do
  if cfg.urls = [] then return (none, true)
  let nc : Option Nat ← call (.connect (String.intercalate "," cfg.urls))
  match nc with
  | none => return (none, false)
  | some nc =>
    let js : Bool ← call (.jetstream nc)
    if !js then
      call (.close nc)
      return (none, false)
    let stream : Bool ← call (.createOrUpdateStream nc cfg.stream cfg.subject cfg.replicas)
    if !stream then
      call (.close nc)
      return (none, false)
    return (some nc, true)

/-- `natsPublisher.Publish`. -/
def publish (codec : EventCodec) (cfg : Settings) (nc : Nat) (ev : MessageCreated) :
    Code codec.Payload (Bool × Nat) :=
  match codec.marshal ev with
  | none => return (false, nc)
  | some payload => do
    let ok : Bool ← call (.publish nc cfg.subject (formatInt ev.id 10) payload)
    return (ok, nc)

/-- The consumer's `AckWait`. -/
def ackWait : Duration := 30 * Duration.second

/-- The consumer's `MaxAckPending`. -/
def maxAckPending : Nat := 512

/-- The iterator's `PullMaxMessages`. -/
def pullMaxMessages : Nat := 64

/-- `newNATSConsumer`. -/
def newNATSConsumer (cfg : Settings) : Code P (Option Nat) := do
  match ← natsConnect cfg with
  | (none, _) => return none
  | (some nc, _) =>
    let made : Bool ← call (.createOrUpdateConsumer nc cfg.durable ackWait maxAckPending)
    if !made then
      call (.close nc)
      return none
    return some nc

/-- The loop of `Consume`, as far as `turns` iterations. -/
def iterate (codec : EventCodec) (handle : Handle (Call codec.Payload) Call.Result) (iter : Nat) :
    Nat → Nat → Code codec.Payload (Option Nat)
  | 0, _ => return none
  | turns + 1, attempt => do
    if !(← running) then return some attempt
    let msg : Next codec.Payload ← call (.next iter)
    match msg with
    | .error closed =>
      if !(← running) || closed then return some attempt
      sleep Duration.second
      iterate codec handle iter turns attempt
    | .message k data =>
      match codec.unmarshal data with
      | none => return some attempt
      | some ev =>
        let (ok, attempt) ← handle ev attempt
        if !ok then
          call (.nakWithDelay k (5 * Duration.second))
          return some attempt
        let acked : Bool ← call (.doubleAck k)
        if acked then iterate codec handle iter turns attempt else return some attempt

/-- `natsConsumer.Consume`, with the deferred `Stop`. The goroutine that stops the iterator when the
context is done shows in what `Next` returns. -/
def consume (codec : EventCodec) (turns : Nat) (handle : Handle (Call codec.Payload) Call.Result)
    (nc : Nat) (attempt : Nat) : Code codec.Payload (Option (Nat × Nat)) := do
  let iter : Option Nat ← call (.messages nc pullMaxMessages)
  match iter with
  | none => return some (nc, attempt)
  | some iter =>
    match ← iterate codec handle iter turns attempt with
    | none => return none
    | some attempt =>
      call (.stop iter)
      return some (nc, attempt)

/-- The package's NATS. -/
def nats (codec : EventCodec) (cfg : Settings) : Client (Call codec.Payload) Call.Result where
  Publisher := Nat
  Consumer := Nat
  publish := publish codec cfg
  newConsumer := newNATSConsumer cfg
  consume := consume codec
  close nc := call (.close nc)

/-! ## The stream -/

/-- The state of the stream and its durable consumer. A message is kept with its identifier; `ids`
are the identifiers of those stored of late, with their numbers; `pending` the messages that are
out; `buffers` what an iterator has yet to return. -/
structure Stream (P : Type) where
  ledger : Acks.Ledger (String × P) Unit
  ids : List (String × Nat)
  pending : List Nat
  buffers : List (Nat × Nat)
  connected : Nat
  iterators : Nat

/-- How a call ends. -/
inductive Choice
  | done
  | ok (ok : Bool)
  | published (stored : Bool) (ok : Bool)
  | received (k : Nat)
  | error (closed : Bool)
  | acked (ok : Bool) (now : Bool)

/-- What happens besides. -/
inductive Background
  | forget (id : String)
  | deliver (iter : Nat) (k : Nat)
  | expire (k : Nat)
  | land (k : Nat)

namespace Stream

def empty : Stream P := ⟨.empty, [], [], [], 0, 0⟩

/-- The stream takes a message in, unless it has one with that identifier. -/
def store (s : Stream P) (msgId : String) (payload : P) : Stream P :=
  match s.ids.lookup msgId with
  | some _ => s
  | none =>
    { s with ledger := s.ledger.put (msgId, payload), ids := (msgId, s.ledger.log.length) :: s.ids }

/-- The acknowledgement takes effect. -/
def settle (s : Stream P) (k : Nat) : Stream P :=
  { s with ledger := s.ledger.ack k, pending := s.pending.erase k }

/-- How a call is answered. -/
def respond (s : Stream P) : (e : Call P) → Choice → Option (e.Result × Stream P)
  | .connect _, .ok ok =>
    some (if ok then (some s.connected, { s with connected := s.connected + 1 }) else (none, s))
  | .jetstream _, .ok ok => some (ok, s)
  | .createOrUpdateStream .., .ok ok => some (ok, s)
  | .createOrUpdateConsumer .., .ok ok => some (ok, s)
  -- the answer may be lost, but there is none before the message is stored
  | .publish _ _ msgId payload, .published stored ok =>
    if ok && !stored then none else some (ok, if stored then s.store msgId payload else s)
  | .messages _ _, .ok ok =>
    some (if ok then (some s.iterators, { s with iterators := s.iterators + 1 }) else (none, s))
  | .next iter, .received k =>
    if (iter, k) ∈ s.buffers then
      (s.ledger.log[k]?).map fun (_, data) =>
        (.message k data, { s with buffers := s.buffers.erase (iter, k) })
    else none
  | .next _, .error closed => some (.error closed, s)
  | .stop _, .done => some ((), s)
  | .nakWithDelay _ _, .done => some ((), s)
  | .doubleAck k, .acked ok now =>
    if now then some (ok, s.settle k)
    else if ok then none
    else some (false, { s with ledger := s.ledger.send () k })
  | .close _, .done => some ((), s)
  | _, _ => none

/-- What moves by itself. -/
def background (s : Stream P) : Background → Option (Stream P)
  | .forget id => some { s with ids := s.ids.filter (·.1 ≠ id) }
  | .deliver iter k =>
    if s.ledger.Held k ∧ k ∉ s.pending ∧ s.pending.length < maxAckPending ∧
        s.buffers.countP (·.1 = iter) < pullMaxMessages then
      some { s with pending := k :: s.pending, buffers := s.buffers ++ [(iter, k)] }
    else none
  | .expire k => some { s with pending := s.pending.erase k }
  | .land k => if ((), k) ∈ s.ledger.late then some (s.settle k) else none

end Stream

/-- JetStream as its clients see it. -/
def service (P : Type) : Service (Call P) Call.Result (Stream P) Choice Background :=
  ⟨Stream.respond, Stream.background⟩

end OtusApp.Broker.Nats
