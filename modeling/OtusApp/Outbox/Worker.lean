import OtusApp.Domain.Messaging
import OtusApp.Go.Duration
import OtusApp.Resilience.Retry

/-!
# The worker of one target

`outbox.run` as a machine: a worker stands in front of its next call and is resumed with what that
call returned. Between the calls the loop decides on its own: which call comes next, whether the
publisher is kept, and how long to wait. The worker learns of the cancellation of its context where
the loop asks for it, at its head and after a wait; a cancelled context also makes the calls fail,
which is a reply like any other.
-/

namespace OtusApp.Outbox

open Messaging Go Resilience

/-- `outbox.Delivery`: the claimed row and the lease's token. -/
structure Delivery where
  messageId : Nat
  target : String
  token : String
  attempts : Nat
  event : MessageCreated
deriving DecidableEq, Repr

/-- What `Claim`, `Complete` and `Retry` report: `ErrLeaseLost`, or an error of the database. -/
inductive StoreErr
  | leaseLost
  | database
deriving DecidableEq, Repr

/-- The call a worker makes next. -/
inductive Stage
  | head
  | stats
  | claiming
  | connecting (d : Delivery)
  | publishing (d : Delivery)
  | retrying (d : Delivery) (delay : Duration)
  | completing (d : Delivery)
  | pausing (delay : Duration)
  | returned
deriving DecidableEq, Repr

/-- The delivery in a worker's hands. -/
def Stage.delivery : Stage → Option Delivery
  | .connecting d => some d
  | .publishing d => some d
  | .retrying d _ => some d
  | .completing d => some d
  | _ => none

/-- What a call returned: the clock, or the result of the call. A reply that is followed by a delay
carries the source of its random draw. -/
inductive Reply
  | clock (now : Time)
  | stats (ok : Bool) (now : Time)
  | claimed (result : Except StoreErr (Option Delivery)) (source : Nat)
  | connected (publisher : Option Nat) (ok : Bool) (source : Nat)
  | published (ok : Bool) (source : Nat)
  | retried (result : Except StoreErr Unit)
  | completed (result : Except StoreErr Unit)
  | waited

/-- The variables of `run`. `publisher` is the open publisher, a number the factory gave it. -/
structure Worker where
  target : String
  cancelled : Bool
  publisher : Option Nat
  attempt : Nat
  claimAttempt : Nat
  nextStats : Option Time
  stage : Stage
deriving DecidableEq, Repr

namespace Worker

/-- A worker as `Start` starts it. -/
def start (target : String) : Worker := ⟨target, false, none, 0, 0, none, .head⟩

/-- `return`, with the deferred `Close` of the publisher. -/
def return_ (w : Worker) : Worker := { w with publisher := none, stage := .returned }

/-- `Wait` for a delay; without one the draw has panicked. -/
def pause (w : Worker) : Option Duration → Worker
  | none => w.return_
  | some delay => { w with stage := .pausing delay }

/-- A publication that failed: the publisher is closed and the job will be released. -/
def fail (w : Worker) (d : Delivery) (source : Nat) : Worker :=
  match backoff (max d.attempts (w.attempt + 1)) source with
  | none => w.return_
  | some delay => { w with publisher := none, stage := .retrying d delay }

/-- The loop up to the next call. -/
def resume (w : Worker) (reply : Reply) : Option Worker :=
  match w.stage, reply with
  | .head, .clock now =>
    if w.cancelled then some w.return_
    else if w.nextStats.all (· < now) then some { w with stage := .stats }
    else some { w with stage := .claiming }
  -- whether the statistics came or not changes a metric only
  | .stats, .stats _ now => some { w with nextStats := some (now + 1000000), stage := .claiming }
  | .claiming, .claimed (.error _) source =>
    some ({ w with claimAttempt := w.claimAttempt + 1 }.pause (backoff (w.claimAttempt + 1) source))
  | .claiming, .claimed (.ok none) _ =>
    some { w with claimAttempt := 0, stage := .pausing (250 * Duration.millisecond) }
  | .claiming, .claimed (.ok (some d)) _ =>
    some { w with
      claimAttempt := 0
      stage := if w.publisher.isSome then .publishing d else .connecting d }
  | .connecting d, .connected publisher ok source =>
    let w := { w with publisher := publisher }
    if ok ∧ publisher.isSome then some { w with stage := .publishing d } else some (w.fail d source)
  | .publishing d, .published ok source =>
    if ok then some { w with stage := .completing d } else some (w.fail d source)
  | .retrying _ delay, .retried _ =>
    some { w with attempt := w.attempt + 1, stage := .pausing delay }
  | .completing _, .completed _ => some { w with attempt := 0, stage := .head }
  | .pausing _, .waited => if w.cancelled then some w.return_ else some { w with stage := .head }
  | _, _ => none

end Worker

end OtusApp.Outbox
