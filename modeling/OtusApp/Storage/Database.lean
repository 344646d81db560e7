import OtusApp.Lib.System
import OtusApp.Storage.Outbox

/-!
# The database under any number of callers

The state is the committed tables, the clock, every call of `Create` made so far with the writes of
its open transaction, and a history of the outbox operations that took effect. A label is one
atomic step: time passes, a replica starts and migrates, a call begins, a call runs its next
statement or dies, or one of `Claim`, `Complete` and `Retry` runs. Labels come in any order, with
any arguments and any answer, so every interleaving of every number of callers is a run.

Two guards restrict the labels. The insert of `Create` waits while another open transaction holds
its key in the unique index; and the token of a `Claim` has never been drawn before.
-/

namespace OtusApp.Storage

open Messaging Outbox Go Transition

/-- An outbox operation that took effect, whether or not its caller learnt of it. -/
inductive Entry
  | claimed (time : Time) (lease : Duration) (token : String) (row : Nat × String)
  | released (time : Time) (delay : Duration) (token : String) (row : Nat × String)
  | delivered (time : Time) (token : String) (row : Nat × String)
deriving DecidableEq, Repr

namespace Entry

/-- The row an operation was on. -/
def row : Entry → Nat × String
  | .claimed _ _ _ row => row
  | .released _ _ _ row => row
  | .delivered _ _ row => row

/-- The token an operation carried. -/
def token : Entry → String
  | .claimed _ _ token _ => token
  | .released _ _ token _ => token
  | .delivered _ token _ => token

/-- When the operation ran. -/
def time : Entry → Time
  | .claimed time _ _ _ => time
  | .released time _ _ _ => time
  | .delivered time _ _ => time

/-- Whether the operation was a `Claim`. -/
def isClaim : Entry → Bool
  | .claimed .. => true
  | _ => false

end Entry

/-- The database and the calls on it. `log` has the newest entry first. -/
structure Database (codec : EventCodec) where
  tables : Tables codec.Payload
  now : Time
  calls : List (Call codec.Payload)
  tokens : List String
  log : List Entry

/-- One atomic step. -/
inductive Event
  | tick (elapsed : Nat)
  | migrate
  | create (text key : String) (targets : List String) (begun : Bool)
  | exec (i : Nat) (answer : Answer)
  | crash (i : Nat)
  | claim (target : String) (lease : Duration) (token : String) (locked : List (Nat × String))
      (answer : Answer)
  | complete (d : Delivery) (answer : Answer)
  | retry (d : Delivery) (delay : Duration) (answer : Answer)

variable {codec : EventCodec}

/-- The insert of a call waits for the open transaction that already wrote its key. -/
def Call.waits (c : Call codec.Payload) (calls : List (Call codec.Payload)) (answer : Answer) :
    Bool :=
  match c.phase, answer with
  | .inserting, .ok =>
    c.key ≠ "" ∧ calls.any fun other => other.pending.any fun r => r.idemKey = some c.key
  | _, _ => false

/-- What a `Claim` leaves in the history. -/
def claimEntry (outbox : List (OutboxRow codec.Payload)) (target : String) (d : Duration)
    (token : String) (locked : List (Nat × String)) (now : Time) (answer : Answer) : List Entry :=
  match answer, claimStatement outbox target d token locked now with
  | .failed, _ => []
  | _, .ok (some o, _) => [.claimed now d token o.key]
  | _, _ => []

/-- What a `Complete` or a `Retry` leaves in the history. -/
def finishEntry (outbox : List (OutboxRow codec.Payload)) (d : Delivery) (entry : Entry)
    (answer : Answer) : List Entry :=
  if answer ≠ .failed ∧ outbox.any (leased d) then [entry] else []

/-- The step of the database. -/
def step (codec : EventCodec) (s : Database codec) : Event → Option (Database codec)
  | .tick elapsed => some { s with now := s.now + elapsed }
  | .migrate => some { s with tables := { s.tables with messages := migrate s.tables.messages } }
  | .create text key targets begun =>
    some { s with calls := s.calls ++ [Call.start text key targets s.now begun] }
  | .exec i answer =>
    match s.calls[i]? with
    | none => none
    | some c =>
      if c.waits s.calls answer then none
      else
        some { s with
          tables := (c.exec codec s.tables answer).1
          calls := s.calls.set i (c.exec codec s.tables answer).2 }
  | .crash i =>
    match s.calls[i]? with
    | none => none
    | some c => some { s with calls := s.calls.set i c.crash }
  | .claim target d token locked answer =>
    if token ∈ s.tokens then none
    else
      some { s with
        tables := { s.tables with
          outbox := (claim codec s.tables.outbox target d token locked s.now answer).1 }
        tokens := token :: s.tokens
        log := claimEntry s.tables.outbox target d token locked s.now answer ++ s.log }
  | .complete d answer =>
    some { s with
      tables := { s.tables with outbox := (complete s.tables.outbox d s.now answer).1 }
      log := finishEntry s.tables.outbox d (.delivered s.now d.token (d.messageId, d.target))
        answer ++ s.log }
  | .retry d delay answer =>
    some { s with
      tables := { s.tables with outbox := (retry s.tables.outbox d delay s.now answer).1 }
      log := finishEntry s.tables.outbox d (.released s.now delay d.token (d.messageId, d.target))
        answer ++ s.log }

/-- A database `New` has just migrated: any messages an older version left, under the constraints
and with their checksums filled in, an empty outbox, and no call yet. -/
structure Initial (s : Database codec) : Prop where
  schema : Schema s.tables
  migrated : ∃ older, s.tables.messages = migrate older
  outbox : s.tables.outbox = []
  calls : s.calls = []
  tokens : s.tokens = []
  log : s.log = []

/-- The database as a transition system. -/
def database (codec : EventCodec) : System (Database codec) Event :=
  System.ofStep Initial (step codec)

end OtusApp.Storage
