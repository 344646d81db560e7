import OtusApp.Domain.Messaging
import OtusApp.Resilience.Retry

/-!
# The supervised Kafka reader

`supervise` with the loop of `kafkaConsumer.Consume` inside it, as a machine: a reader stands in
front of its next call and is resumed with what the call returned. One session lasts from a
successful `factory` to the first record that is not decoded, handled and committed; the next
session begins after a pause. The reader's context is the supervisor's, so its cancellation ends
both.
-/

namespace OtusApp.Consumer

open Messaging Go Resilience

/-- A record of a partition. -/
structure Record (P : Type) where
  offset : Nat
  value : P

/-- The call a reader makes next. -/
inductive Stage (P : Type)
  | head
  | connecting
  | fetching
  | sleeping
  | handling (partition : Nat) (record : Record P) (ev : MessageCreated)
  | committing (partition : Nat) (record : Record P)
  | ended
  | pausing (delay : Duration)
  | returned

/-- The stages of an open session. -/
def Stage.live {P : Type} : Stage P → Bool
  | .fetching => true
  | .sleeping => true
  | .handling .. => true
  | .committing .. => true
  | _ => false

/-- What a call returned. -/
inductive Reply (P : Type)
  | checked
  | connected (ok : Bool)
  | fetched (partition : Nat) (record : Record P)
  | fetchFailed
  | slept
  | handled (ok : Bool)
  | committed (ok : Bool)
  | closed (source : Nat)
  | waited

/-- The variables of `supervise`. -/
structure Reader (P : Type) where
  cancelled : Bool
  attempt : Nat
  stage : Stage P

namespace Reader

variable {P : Type}

/-- A supervisor as `main` starts it. -/
def start : Reader P := ⟨false, 0, .head⟩

def goto (w : Reader P) (stage : Stage P) : Reader P := { w with stage := stage }

/-- Both loops up to the next call. -/
def resume (codec : EventCodec) (w : Reader codec.Payload) (reply : Reply codec.Payload) :
    Option (Reader codec.Payload) :=
  match w.stage, reply with
  | .head, .checked => some (w.goto (if w.cancelled then .returned else .connecting))
  | .connecting, .connected ok => some (w.goto (if ok then .fetching else .ended))
  | .fetching, .fetched p r =>
    match codec.unmarshal r.value with
    | none => some (w.goto .ended)
    | some ev => some (w.goto (.handling p r ev))
  | .fetching, .fetchFailed => some (w.goto (if w.cancelled then .ended else .sleeping))
  | .sleeping, .slept => some (w.goto .fetching)
  | .handling p r _, .handled ok =>
    if ok then some { w with attempt := 0, stage := .committing p r } else some (w.goto .ended)
  | .committing _ _, .committed ok => some (w.goto (if ok then .fetching else .ended))
  | .ended, .closed source =>
    if w.cancelled then some (w.goto .returned)
    else
      match backoff (w.attempt + 1) source with
      | none => some (w.goto .returned)
      | some delay => some { w with attempt := w.attempt + 1, stage := .pausing delay }
  | .pausing _, .waited => some (w.goto (if w.cancelled then .returned else .head))
  | _, _ => none

end Reader

end OtusApp.Consumer
