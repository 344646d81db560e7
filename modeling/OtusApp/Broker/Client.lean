import OtusApp.Consumer.Handle
import OtusApp.Resilience.Retry

/-!
# Brokers and their clients

`supervise` and `handle` of `cmd/consumer`, over the consumer of any broker, as programs; and any
number of such consumers and of publications over one broker and the stores. A broker is what
answers the calls of its client library (`Service`), and what its package makes of them is a
`Client`: `Publish`, and the constructor, `Consume` and `Close` of its consumer.

The context of a consumer may be cancelled between any two calls, which the loops see where they ask
for it. Of an error, only whether it is `nil` is looked at.
-/

namespace OtusApp.Broker

open Messaging Go Resilience Program Transition
open Projection (Config Stores Write Fate answer)

/-- A call of a consumer or a publisher; `client` is one to the client library of its broker. -/
inductive Call (E : Type)
  | err
  | sleep (delay : Duration)
  | draw
  | wait (delay : Duration)
  | write (w : Write)
  | client (e : E)

variable {E : Type} {R : E → Type}

/-- What a call returns, an error as whether it is `nil`. -/
def Call.Result (R : E → Type) : Call E → Type
  | .err => Bool
  | .sleep _ => Unit
  | .draw => Nat
  | .wait _ => Bool
  | .write _ => Bool
  | .client e => R e

/-- A program over the calls. -/
abbrev Code (E : Type) (R : E → Type) := Prog (Call E) (Call.Result R)

/-- `ctx.Err() == nil`. -/
def running : Code E R Bool := .ask Call.err

/-- `time.Sleep`. -/
def sleep (delay : Duration) : Code E R Unit := .ask (Call.sleep delay)

/-- A call to the client library. -/
def client (e : E) : Code E R (R e) := .ask (Call.client e)

/-- The callback that `Consume` is given. It has `attempt` of `supervise` in its closure: the value
before the call goes in, and the value after it comes out with whether the error is `nil`. -/
abbrev Handle (E : Type) (R : E → Type) := MessageCreated → Nat → Code E R (Bool × Nat)

/-- What the package makes of one broker. `Consume` is taken as far as a number of iterations of
each of its loops: `none` where it is not over by then. -/
structure Client (E : Type) (R : E → Type) where
  Publisher : Type
  Consumer : Type
  publish : Publisher → MessageCreated → Code E R (Bool × Publisher)
  newConsumer : Code E R (Option Consumer)
  consume : Nat → Handle E R → Consumer → Nat → Code E R (Option (Consumer × Nat))
  close : Consumer → Code E R Unit

/-- The callback of `supervise`: a success resets the counter of attempts. -/
def counting (cfg : Config) : Handle E R := fun ev attempt => do
  let ok ← (Projection.handle cfg ev).lift Call.write fun _ r => r
  return (ok, if ok then 0 else attempt)

/-- A consumer behind its `Consume`. -/
def closing (b : Client E R) : Option (b.Consumer × Nat) → Code E R (Option Nat)
  | none => return none
  | some (c, attempt) => do
    b.close c
    return some attempt

/-- One consumer, from the factory to `Close`. -/
def session (b : Client E R) (cfg : Config) (turns attempt : Nat) : Code E R (Option Nat) := do
  match ← b.newConsumer with
  | none => return some attempt
  | some c => closing b (← b.consume turns (counting cfg) c attempt)

/-- `Backoff` and `Wait`: whether to go on. Without a delay the draw has panicked. -/
def pause (attempt : Nat) (source : Nat) : Code E R Bool :=
  match backoff attempt source with
  | none => return false
  | some delay => .ask (Call.wait delay)

/-- `supervise`, as far as `turns` iterations of its loop: whether it has returned. -/
def supervise (b : Client E R) (cfg : Config) : Nat → Nat → Code E R Bool
  | 0, _ => return false
  | turns + 1, attempt => do
    if !(← running) then return true
    match ← session b cfg turns attempt with
    | none => return false
    | some attempt =>
      if !(← running) then return true
      let source : Nat ← .ask Call.draw
      if ← pause (attempt + 1) source then supervise b cfg turns (attempt + 1) else return true

/-! ## Over a broker and the stores -/

/-- How a broker and its client library answer a call, and move by themselves. -/
structure Service (E : Type) (R : E → Type) (S C B : Type) where
  respond : S → (e : E) → C → Option (R e × S)
  background : S → B → Option S

/-- What runs: a consumer, as far as a number of iterations, or a publication. -/
inductive Task (b : Client E R)
  | consumer (cfg : Config) (turns : Nat)
  | publication (p : b.Publisher) (ev : MessageCreated)

/-- Whether it has returned, or whether it returned `nil`. -/
def Task.code {b : Client E R} : Task b → Code E R Bool
  | .consumer cfg turns => supervise b cfg turns 0
  | .publication p ev => do return (← b.publish p ev).1

/-- A broker and the stores of its consumers. -/
structure World (S : Type) where
  broker : S
  stores : Stores

/-- How a call ends. -/
inductive Choice (C : Type)
  | ok (ok : Bool)
  | slept
  | source (n : Nat)
  | fate (f : Fate)
  | client (c : C)

/-- What happens besides: a write that was sent takes effect once more, or the broker moves. -/
inductive Quiet (B : Type)
  | again (k : Nat)
  | broker (b : B)

variable {S C B : Type}

namespace Service

/-- How a call is answered. -/
def call (sv : Service E R S C B) (w : World S) :
    (e : Call E) → Choice C → Option (e.Result R × World S)
  | .err, .ok ok => some (ok, w)
  | .sleep _, .slept => some ((), w)
  | .draw, .source n => some (n, w)
  | .wait _, .ok ok => some (ok, w)
  | .write x, .fate f =>
    some ((answer w.stores x f).1, { w with stores := (answer w.stores x f).2 })
  | .client e, .client c => (sv.respond w.broker e c).map fun (r, s) => (r, { w with broker := s })
  | _, _ => none

/-- What moves by itself. -/
def move (sv : Service E R S C B) (w : World S) : Quiet B → Option (World S)
  | .again k => (Projection.again w.stores k).map fun stores => { w with stores := stores }
  | .broker b => (sv.background w.broker b).map fun s => { w with broker := s }

/-- Consumers and publications over the broker. -/
def machine (sv : Service E R S C B) (b : Client E R) :
    Machine (Task b) (Call E) (Call.Result R) Bool (World S) (Choice C) (Quiet B) :=
  ⟨Task.code, fun w _ => some w, fun w _ e c => sv.call w e c, sv.move⟩

/-- The same as a transition system, from a broker of `init` and empty stores, where the consumers
that are started are configured as `among` says. -/
def deployment (sv : Service E R S C B) (b : Client E R) (init : S → Prop) (among : Config → Prop) :
    System (Pool (Task b) (Call E) (Call.Result R) Bool (World S))
      (Move (Task b) (Choice C) (Quiet B)) :=
  ((sv.machine b).system fun w => init w.broker ∧ w.stores = Projection.empty).restrict fun _ mv =>
    ∀ cfg turns, mv = .arrive (.consumer cfg turns) → among cfg

end Service

end OtusApp.Broker
