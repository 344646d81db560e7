import OtusApp.Coord.Lock
import OtusApp.Storage.Migration

/-!
# Instances that start

The beginning of `run` of `cmd/app`: the database is opened, and with it migrated, under a lock in
etcd. Any number of instances start, over one etcd and one database, and any of them may stop at any
point.
-/

namespace OtusApp.Startup

open Program Transition Coord Storage.Migration

/-- A call of an instance, to etcd or to its pool. -/
inductive Call
  | etcd (e : LockCall)
  | pool (e : Storage.Migration.Call)

/-- What a call returns. -/
def Call.Result : Call → Type
  | .etcd e => e.Result
  | .pool _ => Bool

/-- A program of an instance. -/
abbrev Code := Prog Call Call.Result

/-- A call to etcd. -/
def etcd (e : LockCall) : Code e.Result := .ask (Call.etcd e)

/-- `storage.New` under the lock `/otus/lock/migrate`. -/
def openStore (configured : Bool) (targets : List String) : Code (Option Postgres) :=
  withLock etcd configured ((new targets).lift Call.pool fun _ r => r)

/-- etcd and the database. -/
structure Env where
  locks : Locks
  db : Serial.Store Catalog

/-- How a call ends. -/
inductive Choice
  | lock (c : LockChoice)
  | sql (c : Serial.Choice)
  | ok (ok : Bool)

/-- What happens besides. -/
inductive Background
  | expire (i : Nat)
  | db (b : Serial.Background Insert)

/-- How a call is answered. -/
def respond (s : Env) (i : Nat) : (e : Call) → Choice → Option (e.Result × Env)
  | .etcd e, .lock c => (s.locks.respond i e c).map fun (r, locks) => (r, { s with locks := locks })
  | .pool (.sql e), .sql c => (s.db.respond sql i e c).map fun (r, db) => (r, { s with db := db })
  | .pool .parseConfig, .ok ok => some (ok, s)
  | .pool .newWithConfig, .ok ok => some (ok, s)
  | .pool .ping, .ok ok => some (ok, s)
  | .pool .close, .ok ok => some (ok, s)
  | _, _ => none

/-- What moves by itself. -/
def background (s : Env) : Background → Option Env
  | .expire i => (s.locks.expire i).map fun locks => { s with locks := locks }
  | .db b => (s.db.background sql b).map fun db => { s with db := db }

/-- The instances; a request is the start of one, with its targets. -/
def machine (configured : Bool) :
    Machine (List String) Call Call.Result (Option Postgres) Env Choice Background where
  handler := openStore configured
  arrive s _ := some s
  respond s caller := respond s caller.1
  background := background

/-- The state of the instances. -/
abbrev State := Pool (List String) Call Call.Result (Option Postgres) Env

/-- They start over a database with the catalog `c`. -/
def startup (configured : Bool) (c : Catalog) :
    System State (Move (List String) Choice Background) :=
  (machine configured).system fun s => s = ⟨.empty, .fresh c⟩

end OtusApp.Startup
