import OtusApp.Consumer.Handle
import OtusApp.Go.Strings
import OtusApp.Lib.Replicas
import Mathlib.Data.Finset.Range
import Mathlib.Data.List.Dedup
import Mathlib.Data.String.Basic

/-!
# The events on the replicas

What `Save` leaves in a cluster, and what `Recent` and `ByID` read from it. Each partition has its
replicas. The driver may send a batch several times, each time with the clock of its process, and
each replica applies each statement of an attempt at a moment of its own, or never; `ExecuteBatch`
returns `nil` once enough replicas of both rows have applied one attempt, as many as the consistency
level asks for. A read is answered by as many replicas, and merges what they hold column by column:
the newest value wins, and the greater one among equally new ones.

Which runs there have been is kept besides.
-/

namespace OtusApp.Cstore

open Messaging Go Program Transition Projection Replicas

/-- `gocql.Consistency`. -/
inductive Consistency
  | any
  | one
  | two
  | three
  | quorum
  | all
  | localQuorum
  | eachQuorum
  | localOne
deriving DecidableEq, Repr

/-- `UnmarshalText`. -/
def Consistency.unmarshalText : String → Option Consistency
  | "ANY" => some .any
  | "ONE" => some .one
  | "TWO" => some .two
  | "THREE" => some .three
  | "QUORUM" => some .quorum
  | "ALL" => some .all
  | "LOCAL_QUORUM" => some .localQuorum
  | "EACH_QUORUM" => some .eachQuorum
  | "LOCAL_ONE" => some .localOne
  | _ => none

/-- `consistency`, of the value of `CASSANDRA_CONSISTENCY` and with `strings.ToUpper` as `upper`. -/
def consistency (upper : String → String) (env : String) : Consistency :=
  let raw := trimSpace env
  if raw = "" then .quorum else (Consistency.unmarshalText (upper raw)).getD .quorum

/-- How many of `n` replicas a level waits for; with `SimpleStrategy` there is one datacenter. -/
def Consistency.acks (n : Nat) : Consistency → Nat
  | .any => 0
  | .one | .localOne => 1
  | .two => 2
  | .three => 3
  | .quorum | .localQuorum | .eachQuorum => n / 2 + 1
  | .all => n

/-- A batch as it was sent once. -/
structure Attempt where
  stamp : Nat
  event : MessageCreated
  producer : String
deriving DecidableEq, Repr

/-- The tables. -/
inductive Table
  | messageEvents
  | eventsById
deriving DecidableEq, Repr

/-- The runs so far, the attempts, and which replica of its partition holds which of them, in each
table. -/
structure Cluster where
  runs : List (Config × MessageCreated)
  attempts : List Attempt
  held : Table → List (Nat × Attempt)

/-- An attempt has been applied by enough replicas of both its rows. -/
def Cluster.Acked (n : Nat) (level : Consistency) (s : Cluster) (a : Attempt) : Prop :=
  ∀ table ∈ [Table.messageEvents, .eventsById], Stored (s.held table) (Finset.range n)
    (level.acks n) a

instance (n : Nat) (level : Consistency) (s : Cluster) (a : Attempt) :
    Decidable (s.Acked n level a) :=
  inferInstanceAs (Decidable (∀ table ∈ [Table.messageEvents, .eventsById], _))

/-! ## Writing -/

/-- How `Save` ends: with the attempt that succeeded, or with an error. What a document meets is
left open. -/
def respond (n : Nat) (level : Consistency) (s : Cluster) (_ : Nat × Config × MessageCreated) :
    Write → Option Nat → Option (Bool × Cluster)
  | .batch ev producer, some k =>
    (s.attempts[k]?).bind fun a =>
      if a.event = ev ∧ a.producer = producer ∧ s.Acked n level a then some (true, s) else none
  | .document _, some _ => some (true, s)
  | _, none => some (false, s)

/-- What happens beside the runs: the driver sends the batch of a run, and a replica applies a
statement of it. -/
inductive Background
  | attempt (run stamp : Nat)
  | apply (table : Table) (attempt replica : Nat)

/-- A replica applies a statement of an attempt. -/
def Cluster.apply (s : Cluster) (table : Table) (a : Attempt) (replica : Nat) : Cluster :=
  { s with held := Function.update s.held table ((replica, a) :: s.held table) }

/-- What becomes of the cluster. -/
def background (n : Nat) (s : Cluster) : Background → Option Cluster
  | .attempt run stamp =>
    (s.runs[run]?).bind fun q =>
      if q.1.events then
        some { s with attempts := s.attempts ++ [⟨stamp, q.2, q.1.broker⟩] }
      else none
  | .apply table k replica =>
    (s.attempts[k]?).bind fun a => if replica < n then some (s.apply table a replica) else none

/-- The consumers over a cluster. -/
def machine (n : Nat) (level : Consistency) :
    Machine (Config × MessageCreated) Write (fun _ => Bool) Bool Cluster (Option Nat) Background :=
  ⟨fun q => handle q.1 q.2, fun s q => some { s with runs := s.runs ++ [q] },
    respond n level, background n⟩

/-- An empty keyspace. -/
def created : Cluster := ⟨[], [], fun _ => []⟩

/-- The state of the consumers and the cluster. -/
abbrev State := Pool (Config × MessageCreated) Write (fun _ => Bool) Bool Cluster

/-- The consumers and the cluster, with `n` replicas of each row. -/
def cluster (n : Nat) (level : Consistency) :
    System State (Move (Config × MessageCreated) (Option Nat) Background) :=
  (machine n level).system fun s => s = created

/-! ## Reading -/

/-- `Event`. -/
structure Event where
  id : Nat
  text : String
  checksum : String
  producer : String
  createdAt : Time
deriving DecidableEq, Repr

/-- The value of a column. -/
def column {α : Type} [LinearOrder α] (f : Attempt → α) (rows : List Attempt) : Option α :=
  (newest Attempt.stamp f rows).map Prod.snd

/-- `ByID`, answered by the replicas of `q`; `none` is `gocql.ErrNotFound`. -/
def Cluster.byID (s : Cluster) (q : Finset Nat) (id : Nat) : Option Event := do
  let rows := (merged (s.held .eventsById) q).filter fun a => a.event.id = id
  let text ← column (fun a => a.event.text) rows
  let checksum ← column (fun a => a.event.checksum) rows
  let producer ← column Attempt.producer rows
  let createdAt ← column (fun a => timestamp a.event.createdAt) rows
  return ⟨id, text, checksum, producer, Timestamp.time createdAt⟩

/-- The clustering columns of `message_events`. -/
def Attempt.clustering (a : Attempt) : Timestamp × Nat := (timestamp a.event.createdAt, a.event.id)

/-- `CLUSTERING ORDER BY (created_at DESC, id DESC)`. -/
def before (x y : Int × Nat) : Bool := decide (y.1 < x.1 ∨ y.1 = x.1 ∧ y.2 ≤ x.2)

/-- A partition of `message_events`. -/
def Cluster.partition (s : Cluster) (q : Finset Nat) (day : String) : List Attempt :=
  (merged (s.held .messageEvents) q).filter fun a => Cstore.day a.event.createdAt = day

/-- A row of a partition. -/
def feedEvent (rows : List Attempt) (key : Timestamp × Nat) : Option Event := do
  let rows := rows.filter fun a => a.clustering = key
  let text ← column (fun a => a.event.text) rows
  let checksum ← column (fun a => a.event.checksum) rows
  let producer ← column Attempt.producer rows
  return ⟨key.2, text, checksum, producer, Timestamp.time key.1⟩

/-- `Recent`, answered by the replicas of `q`; without a day it is that of `time.Now`. -/
def Cluster.recent (s : Cluster) (q : Finset Nat) (today day : String) (limit : Nat) : List Event :=
  let day := if day = "" then today else day
  let rows := s.partition q day
  (((rows.map Attempt.clustering).dedup.mergeSort before).take limit).filterMap (feedEvent rows)

end OtusApp.Cstore
