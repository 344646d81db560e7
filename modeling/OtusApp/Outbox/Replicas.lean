import OtusApp.Outbox.Worker
import OtusApp.Storage.Database

/-!
# Workers over one database

Any number of workers, of any replicas and targets, over the database of the storage model. A step
is one call of one worker, a step of the database that is not an operation of a worker, the start,
cancellation or crash of a worker, or a statement that lands late: one whose caller has given up on
it, and which the server runs at some later moment or never.

`published` lists the publications that returned `nil`.
-/

namespace OtusApp.Outbox

open Messaging Go Storage Transition

/-- The state of the workers and their database. -/
structure Replicas (codec : EventCodec) where
  db : Database codec
  workers : List Worker
  late : List Event
  published : List (String × MessageCreated)

/-- One step; `i` is the worker that takes it. -/
inductive Move
  | storage (e : Event)
  | start (target : String)
  | cancel (i : Nat)
  | crash (i : Nat)
  | look (i : Nat) (now : Time)
  | stats (i : Nat) (ok : Bool) (now : Time)
  | claim (i : Nat) (token : String) (locked : List (Nat × String)) (answer : Answer) (source : Nat)
  | connect (i : Nat) (publisher : Option Nat) (ok : Bool) (source : Nat)
  | publish (i : Nat) (ok : Bool) (source : Nat)
  | retry (i : Nat) (answer : Answer)
  | complete (i : Nat) (answer : Answer)
  | wait (i : Nat)
  | land (k : Nat)

/-- The operations only workers call. -/
def ofWorker : Event → Bool
  | .claim .. => true
  | .complete .. => true
  | .retry .. => true
  | _ => false

variable {codec : EventCodec}

namespace Replicas

/-- A worker goes on with the reply to its call. -/
def resume (s : Replicas codec) (i : Nat) (reply : Reply) : Option (Replicas codec) :=
  match s.workers[i]? with
  | none => none
  | some w => (w.resume reply).map fun w' => { s with workers := s.workers.set i w' }

/-- A statement of a worker: it runs now, or its caller gives up and it may land late. -/
def call (s : Replicas codec) (e : Event) (answer : Answer) : Option (Replicas codec) :=
  match answer with
  | .lost => some { s with late := s.late ++ [e] }
  | _ => (step codec s.db e).map fun db => { s with db := db }

/-- What a statement's caller sees of `result`. -/
def seen {α : Type} (answer : Answer) (result : Except StoreErr α) : Except StoreErr α :=
  match answer with
  | .lost => .error .database
  | _ => result

/-- The lease of a worker's `Claim`. -/
def leaseTime : Duration := 45 * Duration.second

/-- The step of the workers and their database. -/
def next (s : Replicas codec) : Move → Option (Replicas codec)
  | .storage e =>
    if ofWorker e then none else (step codec s.db e).map fun db => { s with db := db }
  | .start target => some { s with workers := s.workers ++ [.start target] }
  | .cancel i =>
    some { s with workers := s.workers.modify i fun w => { w with cancelled := true } }
  | .crash i => some { s with workers := s.workers.modify i Worker.return_ }
  | .look i now => s.resume i (.clock now)
  | .stats i ok now => s.resume i (.stats ok now)
  | .claim i token locked answer source => do
    let w ← s.workers[i]?
    let result := (claim codec s.db.tables.outbox w.target leaseTime token locked s.db.now answer).2
    let s' ← s.call (.claim w.target leaseTime token locked answer) answer
    s'.resume i (.claimed (seen answer result) source)
  | .connect i publisher ok source => s.resume i (.connected publisher ok source)
  | .publish i ok source => do
    let w ← s.workers[i]?
    match w.stage with
    | .publishing d =>
      let published := if ok then (w.target, d.event) :: s.published else s.published
      { s with published := published }.resume i (.published ok source)
    | _ => none
  | .retry i answer => do
    let w ← s.workers[i]?
    match w.stage with
    | .retrying d delay =>
      let result := (retry s.db.tables.outbox d delay s.db.now answer).2
      let s' ← s.call (.retry d delay answer) answer
      s'.resume i (.retried (seen answer result))
    | _ => none
  | .complete i answer => do
    let w ← s.workers[i]?
    match w.stage with
    | .completing d =>
      let result := (complete s.db.tables.outbox d s.db.now answer).2
      let s' ← s.call (.complete d answer) answer
      s'.resume i (.completed (seen answer result))
    | _ => none
  | .wait i => s.resume i .waited
  | .land k => do
    let e ← s.late[k]?
    let db ← step codec s.db e
    some { s with db := db, late := s.late.eraseIdx k }

end Replicas

/-- A database as `New` leaves it, and no worker yet. -/
def Started (s : Replicas codec) : Prop :=
  Initial s.db ∧ s.workers = [] ∧ s.late = [] ∧ s.published = []

/-- The workers and their database as a transition system. -/
def replicas (codec : EventCodec) : System (Replicas codec) Move :=
  System.ofStep Started Replicas.next

end OtusApp.Outbox
