import OtusApp.Lib.Program
import OtusApp.Outbox.Worker

/-!
# The loop of a worker, call by call

`outbox.run` as a program over the calls it makes, `Close` among them. Nothing is said here about
how a call ends: the factory may give a publisher with an error or neither, and the context may be
cancelled between any two calls, which the loop sees where it asks for it. Of an error, only whether
it is `nil` is looked at.
-/

namespace OtusApp.Outbox.Run

open Messaging Go Resilience Program

/-- A call of `run`. A publisher goes by a number. -/
inductive Call
  | err
  | now
  | outboxStats (target : String)
  | claim (target : String) (lease : Duration)
  | factory (target : String)
  | publish (publisher : Nat) (event : MessageCreated)
  | close (publisher : Nat)
  | retry (d : Delivery) (delay : Duration)
  | complete (d : Delivery)
  | draw
  | wait (delay : Duration)

/-- What a call returns, an error as whether it is `nil`. -/
def Call.Result : Call → Type
  | .err => Bool
  | .now => Time
  | .outboxStats _ => Bool
  | .claim _ _ => Option Delivery × Bool
  | .factory _ => Option Nat × Bool
  | .publish _ _ => Bool
  | .close _ => Unit
  | .retry _ _ => Bool
  | .complete _ => Bool
  | .draw => Nat
  | .wait _ => Bool

/-- A program over the calls of `run`. -/
abbrev Code := Prog Call Call.Result

/-- The variables that outlive an iteration. -/
structure Vars where
  publisher : Option Nat
  attempt : Nat
  claimAttempt : Nat
  nextStats : Option Time

/-- How an iteration ends. -/
inductive Turn
  | continue_ (v : Vars)
  | return_ (v : Vars)

/-- `publisher.Close()`, where there is a publisher. -/
def close : Option Nat → Code Unit
  | none => return
  | some p => .ask (Call.close p)

/-- `if !resilience.Wait(ctx, delay) { return }; continue`. -/
def pause (v : Vars) (delay : Duration) : Code Turn := do
  let ok : Bool ← .ask (Call.wait delay)
  if ok then return .continue_ v else return .return_ v

/-- `resilience.Backoff`, and what is done with the delay. Without one the draw has panicked, and
only the deferred calls are left. -/
def delayed (v : Vars) (attempt : Int) (rest : Duration → Code Turn) : Code Turn := do
  let source : Nat ← .ask Call.draw
  match backoff attempt source with
  | none => return .return_ v
  | some delay => rest delay

/-- The job is released, and the broker is given a pause. -/
def retry (v : Vars) (d : Delivery) (delay : Duration) : Code Turn := do
  let _ ← .ask (Call.retry d delay)
  pause { v with attempt := v.attempt + 1 } delay

/-- `err != nil` after the publication. -/
def fail (v : Vars) (d : Delivery) : Code Turn := do
  close v.publisher
  let v := { v with publisher := none }
  delayed v (max d.attempts (v.attempt + 1)) (retry v d)

/-- `err == nil` after the publication. -/
def complete (v : Vars) (d : Delivery) : Code Turn := do
  let _ ← .ask (Call.complete d)
  return .continue_ { v with attempt := 0 }

/-- `err = publisher.Publish(pubCtx, d.Event)`. -/
def publish (v : Vars) (p : Nat) (d : Delivery) : Code Turn := do
  let ok : Bool ← .ask (Call.publish p d.event)
  if ok then complete v d else fail v d

/-- `publisher, err = factory(pubCtx, target)`; no publisher and no error is an error. -/
def connect (target : String) (v : Vars) (d : Delivery) : Code Turn := do
  let (publisher, ok) ← (.ask (Call.factory target) : Code (Option Nat × Bool))
  let v := { v with publisher := publisher }
  match publisher, ok with
  | some p, true => publish v p d
  | _, _ => fail v d

/-- A delivery, over the publisher that is kept or a new one. -/
def deliver (target : String) (v : Vars) (d : Delivery) : Code Turn :=
  match v.publisher with
  | none => connect target v d
  | some p => publish v p d

/-- `store.Claim`, and what follows from it. -/
def claim (target : String) (v : Vars) : Code Turn := do
  match ← (.ask (Call.claim target (45 * Duration.second)) : Code (Option Delivery × Bool)) with
  | (_, false) =>
    let v := { v with claimAttempt := v.claimAttempt + 1 }
    delayed v v.claimAttempt (pause v)
  | (none, true) => pause { v with claimAttempt := 0 } (250 * Duration.millisecond)
  | (some d, true) => deliver target { v with claimAttempt := 0 } d

/-- The statistics of the queue, which only set metrics, and when to ask for them again. -/
def stats (target : String) (v : Vars) : Code Turn := do
  let _ ← .ask (Call.outboxStats target)
  let now : Time ← .ask Call.now
  claim target { v with nextStats := some (now + 1000000) }

/-- The body of the loop. -/
def turn (target : String) (v : Vars) : Code Turn := do
  let now : Time ← .ask Call.now
  if v.nextStats.all (· < now) then stats target v else claim target v

/-- After an iteration. -/
def proceed (loop : Vars → Code (Option Vars)) : Turn → Code (Option Vars)
  | .continue_ v => loop v
  | .return_ v => return some v

/-- `for ctx.Err() == nil`, as far as `turns` iterations; `none` where the loop is not over by
then. -/
def iterate (target : String) : Nat → Vars → Code (Option Vars)
  | 0, _ => return none
  | turns + 1, v => do
    let ok : Bool ← .ask Call.err
    if ok then proceed (iterate target turns) (← turn target v) else return some v

/-- The deferred `Close`. -/
def finish : Option Vars → Code Bool
  | none => return false
  | some v => do
    close v.publisher
    return true

/-- `run`, as far as `turns` iterations of its loop: whether it has returned. -/
def run (target : String) (turns : Nat) : Code Bool := do
  finish (← iterate target turns ⟨none, 0, 0, none⟩)

/-! ## Its runs -/

/-- How the next call ends, whichever it is. -/
structure Outcomes where
  err : Bool
  now : Time
  stats : Bool
  claim : Option Delivery × Bool
  factory : Option Nat × Bool
  publish : Bool
  retry : Bool
  complete : Bool
  source : Nat
  wait : Bool

def Outcomes.answer (o : Outcomes) : (e : Call) → e.Result
  | .err => o.err
  | .now => o.now
  | .outboxStats _ => o.stats
  | .claim _ _ => o.claim
  | .factory _ => o.factory
  | .publish _ _ => o.publish
  | .close _ => ()
  | .retry _ _ => o.retry
  | .complete _ => o.complete
  | .draw => o.source
  | .wait _ => o.wait

/-- The calls made so far, with what they returned. -/
abbrev Trace := List ((e : Call) × e.Result)

/-- Every call is answered as the outcomes say, and recorded. -/
def record (trace : Trace) (e : Call) (o : Outcomes) : Option (e.Result × Trace) :=
  some (o.answer e, trace ++ [⟨e, o.answer e⟩])

end OtusApp.Outbox.Run
