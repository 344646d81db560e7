import OtusApp.Domain.Messaging
import OtusApp.Go.Date
import OtusApp.Lib.Upsert
import Mathlib.Data.List.Infix

/-!
# The events in Cassandra

The two tables of `migrate` and the batch of `Save`. An `INSERT` writes a row under its primary key,
and a logged batch is applied as a whole. A `timestamp` counts whole milliseconds: what is finer of
the event's time is not kept.
-/

namespace OtusApp.Cstore

open Messaging Go

/-- A `timestamp`, in milliseconds. -/
abbrev Timestamp := Int

/-- How the driver writes a time: its whole milliseconds, rounded down. -/
def timestamp (t : Time) : Timestamp := t / 1000

/-- The moment a `timestamp` stands for. -/
def Timestamp.time (ms : Timestamp) : Time := ms * 1000

/-- `ev.CreatedAt.UTC().Format("2006-01-02")`. -/
def day (t : Time) : String := formatDate (t / 86400000000)

/-- A row of `message_events`. -/
structure FeedRow where
  day : String
  createdAt : Timestamp
  id : Nat
  text : String
  checksum : String
  producer : String
deriving DecidableEq, Repr

/-- `PRIMARY KEY ((day), created_at, id)`. -/
def FeedRow.key (r : FeedRow) : String × Timestamp × Nat := (r.day, r.createdAt, r.id)

/-- A row of `events_by_id`, whose primary key is `id`. -/
structure EventRow where
  id : Nat
  text : String
  checksum : String
  producer : String
  createdAt : Timestamp
deriving DecidableEq, Repr

/-- The keyspace. -/
structure Tables where
  messageEvents : List FeedRow
  eventsById : List EventRow

/-- The row of an event in `message_events`. -/
def feedRow (ev : MessageCreated) (producer : String) : FeedRow :=
  ⟨day ev.createdAt, timestamp ev.createdAt, ev.id, ev.text, ev.checksum, producer⟩

/-- The row of an event in `events_by_id`. -/
def eventRow (ev : MessageCreated) (producer : String) : EventRow :=
  ⟨ev.id, ev.text, ev.checksum, producer, timestamp ev.createdAt⟩

/-- The batch of `Save`. -/
def Tables.save (t : Tables) (ev : MessageCreated) (producer : String) : Tables :=
  ⟨Upsert.put FeedRow.key t.messageEvents (feedRow ev producer),
    Upsert.put EventRow.id t.eventsById (eventRow ev producer)⟩

/-- The loop of `Scan`, with what is found so far: it counts every row, and takes those whose text
contains the needle while there is room. -/
def scanLoop (lower : String → String) (needle : String) (limit : Int) :
    List EventRow × Nat → List EventRow → List EventRow × Nat
  | acc, [] => acc
  | (found, scanned), ev :: rest =>
    let found :=
      if found.length < limit ∧ needle.toList <:+: (lower ev.text).toList then found ++ [ev]
      else found
    scanLoop lower needle limit (found, scanned + 1) rest

/-- `Scan` of the rows, with `strings.ToLower` as `lower`. -/
def scan (lower : String → String) (substr : String) (limit : Int) (rows : List EventRow) :
    List EventRow × Nat :=
  scanLoop lower (lower substr) limit ([], 0) rows

end OtusApp.Cstore
