import OtusApp.Domain.Messaging
import OtusApp.Lib.Rows
import Mathlib.Algebra.Group.Nat.Defs
import Mathlib.Data.List.Sort

/-!
# The two tables

`messages` and `message_outbox` as `migrate` and `migrateOutbox` declare them. `Tables` is the
committed content: what another transaction reads under READ COMMITTED. The payload type is left
open; the event codec fixes it.

`Schema` collects the constraints the declarations state and PostgreSQL enforces: both primary
keys, the unique index on `idem_key` (which distinct nulls do not violate), and a sequence that is
ahead of every identifier it gave out.
-/

namespace OtusApp.Storage

open Messaging

/-- A row of `messages`. -/
structure MessageRow where
  id : Nat
  text : String
  textHash : String
  idemKey : Option String
  createdAt : Time
deriving DecidableEq, Repr

/-- A row of `message_outbox`. -/
structure OutboxRow (P : Type) where
  messageId : Nat
  target : String
  payload : P
  createdAt : Time
  availableAt : Time
  leaseToken : Option String
  attempts : Nat
  deliveredAt : Option Time
deriving DecidableEq, Repr

/-- The primary key of `message_outbox`. -/
def OutboxRow.key {P : Type} (o : OutboxRow P) : Nat × String := (o.messageId, o.target)

/-- Whether a key is among others is decided by `==`. -/
instance OutboxRow.lawfulKey : LawfulBEq (Nat × String) := inferInstance

/-- What the outbox never rewrites: the key and the payload. -/
def OutboxRow.job {P : Type} (o : OutboxRow P) : (Nat × String) × P := (o.key, o.payload)

/-- The committed tables, with the last value of `messages_id_seq`. -/
structure Tables (P : Type) where
  messages : List MessageRow
  outbox : List (OutboxRow P)
  seq : Nat

/-- The targets the `CHECK` constraint of `message_outbox` admits. -/
def knownTargets : List String := ["kafka", "rabbitmq", "nats"]

/-- `NULLIF(key, '')`. -/
def nullIf (key : String) : Option String := if key = "" then none else some key

/-- `SELECT ... FROM messages WHERE idem_key = key`. -/
def byKey (messages : List MessageRow) (key : String) : Option MessageRow :=
  messages.find? fun r => r.idemKey = some key

/-- `nextval` of a `BIGSERIAL`: an error past the largest `bigint`. -/
def nextval (seq : Nat) : Option Nat := if seq + 1 < 2 ^ 63 then some (seq + 1) else none

/-- The message a scanned row becomes. -/
def MessageRow.message (r : MessageRow) (checksumOk : Bool) : Message :=
  ⟨r.id, r.text, r.textHash, checksumOk, r.createdAt⟩

/-- The part of `migrate` that rewrites rows: the checksum of a row older than its column. -/
def migrate (messages : List MessageRow) : List MessageRow :=
  Rows.update (fun r => r.textHash = "") (fun r => { r with textHash := checksum r.text }) messages

/-- `Postgres.List`: the hundred newest messages. -/
def list (messages : List MessageRow) : List Message :=
  ((messages.insertionSort fun a b => b.id ≤ a.id).take 100).map fun r =>
    r.message (r.textHash = checksum r.text)

/-- The constraints on the committed tables. -/
structure Schema {P : Type} (db : Tables P) : Prop where
  messageIds : (db.messages.map MessageRow.id).Nodup
  idemKeys : (db.messages.filterMap MessageRow.idemKey).Nodup
  sequence : ∀ r ∈ db.messages, r.id ≤ db.seq
  outboxKeys : (db.outbox.map OutboxRow.key).Nodup

end OtusApp.Storage
