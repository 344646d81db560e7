import OtusApp.Storage.Tables
import OtusApp.Storage.Create
import OtusApp.Outbox.Worker

/-!
# Claim, Complete and Retry

Each is one statement, atomic on the committed table. `Claim` takes the earliest row that is
available and not locked by another transaction (`FOR UPDATE SKIP LOCKED`), leases it by moving
`available_at` forward and stamps it with a fresh token. `Complete` and `Retry` act on the row
that still carries the delivery's token, and report `ErrLeaseLost` when no row does.
-/

namespace OtusApp.Storage

open Messaging Outbox Go

variable {P : Type}

/-- `now() + d.Milliseconds() * interval '1 millisecond'`. -/
def after (now : Time) (d : Duration) : Time := now + d.milliseconds * 1000

/-- The largest value of an `INTEGER` column. -/
def maxInteger : Nat := 2 ^ 31 - 1

/-- A row `Claim` may take. -/
def claimable (target : String) (locked : List (Nat × String)) (now : Time) (o : OutboxRow P) :
    Bool :=
  o.target = target ∧ o.deliveredAt = none ∧ o.availableAt ≤ now ∧ o.key ∉ locked

/-- `ORDER BY available_at, message_id`. -/
def claimOrder (a b : OutboxRow P) : Prop :=
  a.availableAt < b.availableAt ∨ (a.availableAt = b.availableAt ∧ a.messageId ≤ b.messageId)

instance (a b : OutboxRow P) : Decidable (claimOrder a b) := inferInstanceAs (Decidable (_ ∨ _))

/-- The candidate row: the first of the claimable ones. -/
def candidate (outbox : List (OutboxRow P)) (target : String) (locked : List (Nat × String))
    (now : Time) : Option (OutboxRow P) :=
  ((outbox.filter (claimable target locked now)).insertionSort claimOrder).head?

/-- What the `UPDATE` of `Claim` writes into the candidate. -/
def lease (token : String) (now : Time) (d : Duration) (o : OutboxRow P) : OutboxRow P :=
  { o with leaseToken := some token, availableAt := after now d, attempts := o.attempts + 1 }

/-- A row still leased under the delivery's token and not delivered. -/
def leased (d : Delivery) (o : OutboxRow P) : Bool :=
  o.messageId = d.messageId ∧ o.target = d.target ∧ o.leaseToken = some d.token ∧
    o.deliveredAt = none

/-- The statement of `Claim`: the candidate and the table it leaves, or nothing to claim. The
column `attempts` overflows into an error. -/
def claimStatement (outbox : List (OutboxRow P)) (target : String) (d : Duration) (token : String)
    (locked : List (Nat × String)) (now : Time) :
    Except StoreErr (Option (OutboxRow P) × List (OutboxRow P)) :=
  match candidate outbox target locked now with
  | none => .ok (none, outbox)
  | some o =>
    if o.attempts < maxInteger then
      .ok (some (lease token now d o),
        Rows.update (fun r => r.key = o.key) (lease token now d) outbox)
    else .error .database

/-- `Postgres.Claim`. The row stays leased when the answer is lost or the payload does not
decode. -/
def claim (codec : EventCodec) (outbox : List (OutboxRow codec.Payload)) (target : String)
    (d : Duration) (token : String) (locked : List (Nat × String)) (now : Time) (answer : Answer) :
    List (OutboxRow codec.Payload) × Except StoreErr (Option Delivery) :=
  match answer, claimStatement outbox target d token locked now with
  | .failed, _ => (outbox, .error .database)
  | _, .error err => (outbox, .error err)
  | .lost, .ok (_, outbox') => (outbox', .error .database)
  | .ok, .ok (none, _) => (outbox, .ok none)
  | .ok, .ok (some o, outbox') =>
    match codec.unmarshal o.payload with
    | none => (outbox', .error .database)
    | some ev => (outbox', .ok (some ⟨o.messageId, target, token, o.attempts, ev⟩))

/-- One `UPDATE` on the leased row: an error unless it affected exactly one row. -/
def finish (outbox : List (OutboxRow P)) (d : Delivery) (set : OutboxRow P → OutboxRow P)
    (answer : Answer) : List (OutboxRow P) × Except StoreErr Unit :=
  let outbox' := Rows.update (leased d) set outbox
  match answer with
  | .failed => (outbox, .error .database)
  | .lost => (outbox', .error .database)
  | .ok => (outbox', if outbox.countP (leased d) ≠ 1 then .error .leaseLost else .ok ())

/-- What `Complete` writes. -/
def delivered (now : Time) (o : OutboxRow P) : OutboxRow P :=
  { o with deliveredAt := some now, leaseToken := none }

/-- What `Retry` writes. -/
def released (now : Time) (delay : Duration) (o : OutboxRow P) : OutboxRow P :=
  { o with leaseToken := none, availableAt := after now delay }

/-- `Postgres.Complete`. -/
def complete (outbox : List (OutboxRow P)) (d : Delivery) (now : Time) (answer : Answer) :
    List (OutboxRow P) × Except StoreErr Unit :=
  finish outbox d (delivered now) answer

/-- `Postgres.Retry`. -/
def retry (outbox : List (OutboxRow P)) (d : Delivery) (delay : Duration) (now : Time)
    (answer : Answer) : List (OutboxRow P) × Except StoreErr Unit :=
  finish outbox d (released now delay) answer

end OtusApp.Storage
