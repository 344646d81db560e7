import OtusApp.Lib.Serial
import OtusApp.Storage.Tables

/-!
# Opening the database

`storage.New`: the pool, and then `migrate` and `migrateOutbox`, statement by statement, in one
transaction that takes an advisory lock first. Several instances may do so at once, beside others,
of this version or an earlier one, that insert messages.

A catalog is what the statements see: which columns and indexes there are, and the rows of
`messages`. From the first `ALTER TABLE` on, the transaction holds that table exclusively;
`CREATE TABLE IF NOT EXISTS` does not lock a table that exists. The rows of `message_outbox` are
left out: no statement here looks at them.
-/

namespace OtusApp.Storage.Migration

open Messaging Program

/-- The table `messages`: which of the later columns and indexes it has, and its rows. Where a
column is missing, what a row has there means nothing. -/
structure Messages where
  textHash : Bool
  idemKey : Bool
  idemKeyIdx : Bool
  rows : List MessageRow
deriving DecidableEq, Repr

/-- The tables and the index of the outbox. -/
structure Catalog where
  messages : Option Messages
  outbox : Bool
  outboxIdx : Bool
deriving DecidableEq, Repr

/-- The statements; `createOutbox` is the one `Exec` of `migrateOutbox`, with its two commands. -/
inductive Statement
  | createMessages
  | addTextHash
  | fillTextHash
  | addIdemKey
  | createIdemKeyIdx
  | createOutbox
deriving DecidableEq, Repr

/-- `ADD COLUMN IF NOT EXISTS text_hash TEXT NOT NULL DEFAULT ''`. -/
def Messages.addTextHash (m : Messages) : Messages :=
  if m.textHash then m
  else { m with textHash := true, rows := m.rows.map fun r => { r with textHash := "" } }

/-- `ADD COLUMN IF NOT EXISTS idem_key TEXT`. -/
def Messages.addIdemKey (m : Messages) : Messages :=
  if m.idemKey then m
  else { m with idemKey := true, rows := m.rows.map fun r => { r with idemKey := none } }

/-- `CREATE UNIQUE INDEX IF NOT EXISTS`: an error where two rows have the same key. -/
def Messages.createIdemKeyIdx (m : Messages) : Option Messages :=
  if m.idemKeyIdx then some m
  else if m.idemKey ∧ (m.rows.filterMap MessageRow.idemKey).Nodup then
    some { m with idemKeyIdx := true }
  else none

/-- What a statement does: `none` is an error, `some none` nothing at all. -/
def Statement.run (st : Statement) (c : Catalog) : Option (Option Catalog) :=
  match st with
  | .createMessages =>
    match c.messages with
    | some _ => some none
    | none => some (some { c with messages := some ⟨false, false, false, []⟩ })
  | .addTextHash => c.messages.map fun m => some { c with messages := some m.addTextHash }
  | .fillTextHash =>
    c.messages.bind fun m =>
      if m.textHash then
        some (some { c with messages := some { m with rows := Storage.migrate m.rows } })
      else none
  | .addIdemKey => c.messages.map fun m => some { c with messages := some m.addIdemKey }
  | .createIdemKeyIdx =>
    c.messages.bind fun m => m.createIdemKeyIdx.map fun m => some { c with messages := some m }
  | .createOutbox =>
    if c.outbox ∨ c.messages.isSome then some (some { c with outbox := true, outboxIdx := true })
    else none

/-- An insertion by an instance that runs: `plain` by a version without the later columns, `keyed`
by `Create`. -/
inductive Insert
  | plain (id : Nat) (text : String) (now : Time)
  | keyed (id : Nat) (text : String) (key : String) (now : Time)

/-- The row, under the primary key. -/
def Messages.insert (m : Messages) (r : MessageRow) : Option Messages :=
  if r.id ∈ m.rows.map MessageRow.id then none else some { m with rows := m.rows ++ [r] }

/-- What an insertion does; `ON CONFLICT (idem_key)` is an error without the index. -/
def Insert.run (w : Insert) (c : Catalog) : Option Catalog :=
  c.messages.bind fun m =>
    match w with
    | .plain id text now =>
      (m.insert ⟨id, text, "", none, now⟩).map fun m => { c with messages := some m }
    | .keyed id text key now =>
      if m.textHash ∧ m.idemKey ∧ m.idemKeyIdx ∧ c.outbox ∧
          (nullIf key = none ∨ nullIf key ∉ m.rows.map MessageRow.idemKey) then
        (m.insert ⟨id, text, checksum text, nullIf key, now⟩).map fun m =>
          { c with messages := some m }
      else none

/-- The statements and the insertions. -/
def sql : Serial.Language Catalog Statement Insert := ⟨Statement.run, Insert.run⟩

/-! ## The program -/

/-- A call to the pool. -/
inductive Call
  | parseConfig
  | newWithConfig
  | ping
  | close
  | sql (e : Serial.Call Statement)

/-- A program over the pool; of an error, only whether it is `nil` is looked at. -/
abbrev Code := Prog Call fun _ => Bool

/-- A call to the pool. -/
def call (e : Call) : Code Bool := .ask e

/-- The statements of `migrate` itself. -/
def statements : List Statement :=
  [.createMessages, .addTextHash, .fillTextHash, .addIdemKey, .createIdemKeyIdx]

/-- One statement after another, up to the first error. -/
def execAll : List Statement → Code Bool
  | [] => return true
  | st :: rest => do if ← call (.sql (.exec st)) then execAll rest else return false

/-- `migrateOutbox`. -/
def migrateOutbox : Code Bool := call (.sql (.exec .createOutbox))

/-- What `migrate` does between its `Begin` and its deferred `rollback`. -/
def transaction : Code Bool := do
  if ← call (.sql .lock) then
    if ← execAll statements then
      if ← migrateOutbox then call (.sql .commit) else return false
    else return false
  else return false

/-- `migrate`. -/
def migrate : Code Bool := do
  if ← call (.sql .begin) then
    let ok ← transaction
    let _ ← call (.sql .rollback)
    return ok
  else return false

/-- The open database. -/
structure Postgres where
  targets : List String
deriving DecidableEq, Repr

/-- `New`. -/
def new (targets : List String) : Code (Option Postgres) := do
  if ← call .parseConfig then
    if ← call .newWithConfig then
      if ← call .ping then
        if ← migrate then return some ⟨targets⟩
        else
          let _ ← call .close
          return none
      else
        let _ ← call .close
        return none
    else return none
  else return none

end OtusApp.Storage.Migration
