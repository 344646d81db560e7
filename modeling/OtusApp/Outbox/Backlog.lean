import OtusApp.Outbox.Run
import OtusApp.Storage.Outbox

/-!
# A worker that meets no failure

The loop of a worker over the table of jobs and a broker that answer every call, while no other
worker runs. Time goes on from call to call as it likes, and the tokens and the draws of the delays
are whatever they are.
-/

namespace OtusApp.Outbox.Backlog

open Messaging Go Storage Run

/-- The table, what the broker has taken in, and how many calls were made. -/
structure Plant (P : Type) where
  outbox : List (OutboxRow P)
  taken : List MessageCreated
  calls : Nat

/-- What each call finds: the time, which never goes back, and what is drawn. -/
structure World where
  clock : Nat → Time
  forward : ∀ {m n : Nat}, m ≤ n → clock m ≤ clock n
  token : Nat → String
  source : Nat → Nat

/-- `Claim` as the loop sees it: the delivery, and whether there is no error. -/
def seen : Except StoreErr (Option Delivery) → Option Delivery × Bool
  | .ok d => (d, true)
  | .error _ => (none, false)

/-- One call more. -/
def Plant.tick {P : Type} (s : Plant P) : Plant P := { s with calls := s.calls + 1 }

/-- How a call is answered. -/
def reply (codec : EventCodec) (world : World) (s : Plant codec.Payload) :
    (e : Call) → e.Result × Plant codec.Payload
  | .err => (true, s.tick)
  | .now => (world.clock s.calls, s.tick)
  | .outboxStats _ => (true, s.tick)
  | .claim target lease =>
    let (outbox, answer) :=
      Storage.claim codec s.outbox target lease (world.token s.calls) [] (world.clock s.calls) .ok
    (seen answer, { s.tick with outbox := outbox })
  | .factory _ => ((some 0, true), s.tick)
  | .publish _ event => (true, { s.tick with taken := s.taken ++ [event] })
  | .close _ => ((), s.tick)
  | .retry d delay =>
    let (outbox, answer) := Storage.retry s.outbox d delay (world.clock s.calls) .ok
    (answer.isOk, { s.tick with outbox := outbox })
  | .complete d =>
    let (outbox, answer) := Storage.complete s.outbox d (world.clock s.calls) .ok
    (answer.isOk, { s.tick with outbox := outbox })
  | .draw => (world.source s.calls, s.tick)
  | .wait _ => (true, s.tick)

/-- The jobs of the target that were due by a time, in the order of `Claim`. -/
def backlog {P : Type} (outbox : List (OutboxRow P)) (target : String) (now : Time) :
    List (OutboxRow P) :=
  (outbox.filter (claimable target [] now)).insertionSort claimOrder

end OtusApp.Outbox.Backlog
