import OtusApp.Broker.Rabbit
import OtusApp.Lib.Trace
import OtusApp.Outbox.Run

/-!
# The worker over RabbitMQ

`outbox.run` with the publisher the factory makes for `rabbitmq`: the calls to the factory, to
`Publish` and to `Close` are the programs of `internal/broker/rabbit.go`, the others stay as they
are. The publishers made so far are kept in a list, under the numbers the worker has for them.
-/

namespace OtusApp.Outbox.Publishing

open Messaging Program
open Broker (Rabbit.RabbitConn Rabbit.Settings)

/-- A call of the worker itself, or of its RabbitMQ client. -/
inductive Call (P : Type)
  | own (e : Run.Call)
  | broker (e : Broker.Call (Broker.Rabbit.Call P))

variable {P : Type}

/-- What a call returns. -/
def Call.Result : Call P → Type
  | .own e => e.Result
  | .broker e => e.Result Broker.Rabbit.Call.Result

/-- A program over the calls. -/
abbrev Code (P : Type) := Prog (Call P) Call.Result

/-- A program of the client. -/
def ofClient {α : Type} (x : Broker.Rabbit.Code P α) : Code P α := x.lift Call.broker fun _ r => r

/-- What a call of the worker does. -/
def implement (codec : EventCodec) (cfg : Rabbit.Settings) :
    (e : Run.Call) → List Rabbit.RabbitConn → Code codec.Payload (e.Result × List Rabbit.RabbitConn)
  | .factory _, made => do
    match ← ofClient (Broker.Rabbit.newRabbitPublisher cfg) with
    | (none, ok) => return ((none, ok), made)
    | (some r, ok) => return ((some made.length, ok), made ++ [r])
  | .publish p ev, made =>
    match made[p]? with
    | none => return (false, made)
    | some r => do
      let (ok, r) ← ofClient (Broker.Rabbit.publish codec r ev)
      return (ok, made.set p r)
  | .close p, made =>
    match made[p]? with
    | none => return ((), made)
    | some r => do
      let r ← ofClient r.closeLocked
      return ((), made.set p r)
  | e, made => do
    let r : e.Result ← .ask (Call.own e)
    return (r, made)

/-- `run` for `rabbitmq`, as far as `turns` iterations of its loop: whether it has returned, and the
publishers it made. -/
def worker (codec : EventCodec) (cfg : Rabbit.Settings) (turns : Nat) :
    Code codec.Payload (Bool × List Rabbit.RabbitConn) :=
  (Run.run "rabbitmq" turns).expand (implement codec cfg) []

end OtusApp.Outbox.Publishing
