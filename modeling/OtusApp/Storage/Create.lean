import OtusApp.Storage.Tables

/-!
# Create, one statement at a time

`Postgres.Create` runs in a transaction: an insert that yields to a row already under the key, the
select that then reads that row, one insert per target, and the commit. `Call` is one running
call: where it stands, and what its transaction has written so far, which no other transaction
sees before the commit. `Call.exec` is the next statement, under the answer the database gives.

An answer is lost when the caller sees an error although the server went on. That matters at the
commit only: the caller returns the error while the server has yet to decide, and `inDoubt` is
that state. Everywhere else a lost answer ends like a failed one, in the deferred rollback.
-/

namespace OtusApp.Storage

open Messaging

/-- How the database answers a statement. -/
inductive Answer
  | ok
  | failed
  | lost
deriving DecidableEq, Repr

/-- Where a call stands: the statement it runs next, or its result. -/
inductive Phase (P : Type)
  | inserting
  | selecting
  | replaying (m : Message)
  | enqueueing (m : Message) (payload : P) (rest : List String)
  | inDoubt
  | aborting (err : Err)
  | finished (result : Except Err Message)

/-- One call of `Create` on a store configured with `targets`. `pending` and `pendingOutbox` are
the uncommitted writes of its transaction; `committed` remembers the message row it committed. -/
structure Call (P : Type) where
  text : String
  key : String
  targets : List String
  startedAt : Time
  phase : Phase P
  pending : Option MessageRow
  pendingOutbox : List (OutboxRow P)
  committed : Option MessageRow

namespace Call

variable {P : Type}

/-- What the caller was told, once it was told. -/
def result (c : Call P) : Option (Except Err Message) :=
  match c.phase with
  | .finished r => some r
  | .inDoubt => some (.error .database)
  | _ => none

/-- `ValidateText` and `Begin`. -/
def start (text key : String) (targets : List String) (now : Time) (begun : Bool) : Call P :=
  let phase := match validateText text with
    | .error err => .finished (.error err)
    | .ok () => if begun then .inserting else .finished (.error .database)
  ⟨text, key, targets, now, phase, none, [], none⟩

/-- A failed statement: the error is returned, after the deferred rollback. -/
def fail (c : Call P) (err : Err) : Call P := { c with phase := .aborting err }

/-- The transaction is gone and its writes with it. -/
def discard (c : Call P) (result : Except Err Message) : Call P :=
  { c with phase := .finished result, pending := none, pendingOutbox := [] }

/-- The transaction is committed. -/
def settle (c : Call P) (result : Except Err Message) : Call P :=
  { c with phase := .finished result, pending := none, pendingOutbox := [], committed := c.pending }

/-- The row the call inserts into `messages`. -/
def messageRow (c : Call P) (id : Nat) : MessageRow :=
  ⟨id, c.text, checksum c.text, nullIf c.key, c.startedAt⟩

/-- A row for one target, with the column defaults of `message_outbox`. -/
def outboxRow (c : Call P) (m : Message) (payload : P) (target : String) : OutboxRow P :=
  ⟨m.id, target, payload, c.startedAt, c.startedAt, none, 0, none⟩

/-- `INSERT INTO messages ... ON CONFLICT (idem_key) DO NOTHING RETURNING ...`, and the payload
marshalled from the row it returns. The sequence moves on also when no row is inserted. -/
def insertMessage (codec : EventCodec) (db : Tables codec.Payload) (c : Call codec.Payload) :
    Tables codec.Payload × Call codec.Payload :=
  match nextval db.seq with
  | none => (db, c.fail .database)
  | some id =>
    let db := { db with seq := id }
    if c.key ≠ "" ∧ (byKey db.messages c.key).isSome then (db, { c with phase := .selecting })
    else
      let m := (c.messageRow id).message true
      let c := { c with pending := some (c.messageRow id) }
      match codec.marshal m.createdEvent with
      | none => (db, c.fail .database)
      | some payload => (db, { c with phase := .enqueueing m payload c.targets })

/-- The fallback `SELECT`, and the comparison of the stored text with the call's. -/
def selectMessage (db : Tables P) (c : Call P) : Call P :=
  match byKey db.messages c.key with
  | none => c.fail .database
  | some row =>
    if row.text ≠ c.text then c.fail .idempotencyConflict
    else { c with phase := .replaying (row.message (row.textHash = checksum row.text)) }

/-- `INSERT INTO message_outbox ... ON CONFLICT (message_id, target) DO NOTHING` for one target of
the loop. The `CHECK` constraint refuses a target it does not list; the message row the foreign key
asks for is the transaction's own. -/
def insertOutbox (db : Tables P) (c : Call P) (m : Message) (payload : P) (target : String)
    (rest : List String) : Call P :=
  if target ∉ knownTargets then c.fail .database
  else if (m.id, target) ∈ (db.outbox ++ c.pendingOutbox).map OutboxRow.key then
    { c with phase := .enqueueing m payload rest }
  else
    { c with
      phase := .enqueueing m payload rest
      pendingOutbox := c.pendingOutbox ++ [c.outboxRow m payload target] }

/-- The committed tables once the transaction's writes are among them. -/
def publish (db : Tables P) (c : Call P) : Tables P :=
  { db with messages := db.messages ++ c.pending.toList, outbox := db.outbox ++ c.pendingOutbox }

/-- The next statement of a call under the database's answer. -/
def exec (codec : EventCodec) (db : Tables codec.Payload) (c : Call codec.Payload)
    (answer : Answer) : Tables codec.Payload × Call codec.Payload :=
  match c.phase, answer with
  | .inserting, .ok => c.insertMessage codec db
  | .inserting, .failed => (db, c.fail .database)
  -- the sequence keeps a value drawn by a transaction that rolls back
  | .inserting, .lost => ({ db with seq := (nextval db.seq).getD db.seq }, c.fail .database)
  | .selecting, .ok => (db, c.selectMessage db)
  | .selecting, _ => (db, c.fail .database)
  -- the commit of a transaction that only read
  | .replaying m, .ok => (db, c.discard (.ok m))
  | .replaying _, _ => (db, c.fail .database)
  | .enqueueing m payload (target :: rest), .ok => (db, c.insertOutbox db m payload target rest)
  | .enqueueing _ _ (_ :: _), _ => (db, c.fail .database)
  | .enqueueing m _ [], .ok => (c.publish db, c.settle (.ok m))
  | .enqueueing _ _ [], .failed => (db, c.fail .database)
  | .enqueueing _ _ [], .lost => (db, { c with phase := .inDoubt })
  -- the server decides on a commit whose caller has already been told of an error
  | .inDoubt, .failed => (db, c.discard (.error .database))
  | .inDoubt, _ => (c.publish db, c.settle (.error .database))
  | .aborting err, _ => (db, c.discard (.error err))
  | .finished _, _ => (db, c)

/-- The process or its connection dies. The server drops the open transaction; a commit already
sent is decided by the server alone. -/
def crash (c : Call P) : Call P :=
  match c.phase with
  | .finished _ => c
  | .inDoubt => c
  | _ => c.discard (.error .database)

end Call

end OtusApp.Storage
