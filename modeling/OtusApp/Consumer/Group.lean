import OtusApp.Consumer.Supervise
import OtusApp.Lib.System
import Mathlib.Logic.Function.Basic

/-!
# A consumer group

Any number of supervised readers, of any replicas, in one group over any number of partitions. The
group keeps one committed offset per partition. An assignment gives a session a partition from the
committed offset on, at any moment of the session; a fetch returns the next record at or past the
session's position. A commit sets the group's offset past its record, implicitly confirming all
before it; whatever the caller was told, it takes effect at once, later, or never.

The topic keeps its records. `ensureTopic` leaves the retention to the broker, which deletes a
record when it is old enough (after seven days, if nothing else is set); that no record becomes so
old before it is handled is an assumption of everything about a group.

`handled` lists the calls of `handle` that returned `nil`.
-/

namespace OtusApp.Consumer

open Messaging Transition

/-- A reader with its session's positions, by partition. -/
structure Member (P : Type) where
  reader : Reader P
  positions : Nat → Option Nat

/-- The state of the group and the topic. -/
structure Group (codec : EventCodec) where
  logs : Nat → List (Record codec.Payload)
  committed : Nat → Nat
  members : List (Member codec.Payload)
  late : List (Nat × Nat)
  handled : List (Nat × Nat × MessageCreated)

/-- The offset after the last record. -/
def logEnd {P : Type} (log : List (Record P)) : Nat := log.foldr (fun r m => max (r.offset + 1) m) 0

/-- The next record at or past a position. -/
def nextRecord {P : Type} (log : List (Record P)) (position : Nat) : Option (Record P) :=
  log.find? fun r => position ≤ r.offset

/-- One step; `i` is the member that takes it. -/
inductive Move (P : Type)
  | append (partition : Nat) (value : P) (gap : Nat)
  | start
  | cancel (i : Nat)
  | crash (i : Nat)
  | check (i : Nat)
  | connect (i : Nat) (ok : Bool)
  | assign (i : Nat) (partition : Nat) (owned : Bool)
  | fetch (i : Nat) (partition : Nat)
  | fetchFail (i : Nat)
  | sleep (i : Nat)
  | handle (i : Nat) (ok : Bool)
  | commit (i : Nat) (ok : Bool) (now : Bool)
  | land (k : Nat)
  | close (i : Nat) (source : Nat)
  | wait (i : Nat)

variable {codec : EventCodec}

namespace Group

/-- A member goes on with the reply to its call, at the positions its session then has. -/
def resume (s : Group codec) (i : Nat) (reply : Reply codec.Payload)
    (positions : (Nat → Option Nat) → Nat → Option Nat) : Option (Group codec) := do
  let m ← s.members[i]?
  let reader ← m.reader.resume codec reply
  some { s with members := s.members.set i ⟨reader, positions m.positions⟩ }

/-- The step of the group. -/
def next (s : Group codec) : Move codec.Payload → Option (Group codec)
  | .append p value gap =>
    some { s with
      logs := Function.update s.logs p (s.logs p ++ [⟨logEnd (s.logs p) + gap, value⟩]) }
  | .start => some { s with members := s.members ++ [⟨.start, fun _ => none⟩] }
  | .cancel i =>
    some { s with
      members :=
        s.members.modify i fun m => { m with reader := { m.reader with cancelled := true } } }
  | .crash i =>
    some { s with
      members := s.members.modify i fun m => { m with reader := m.reader.goto .returned } }
  | .check i => s.resume i .checked id
  -- a new session has no partition yet
  | .connect i ok => s.resume i (.connected ok) fun _ _ => none
  | .assign i p owned =>
    let position := if owned then some (s.committed p) else none
    some { s with
      members := s.members.modify i fun m =>
        { m with positions := Function.update m.positions p position } }
  | .fetch i p => do
    let m ← s.members[i]?
    let position ← m.positions p
    let r ← nextRecord (s.logs p) position
    s.resume i (.fetched p r) fun positions => Function.update positions p (some (r.offset + 1))
  | .fetchFail i => s.resume i .fetchFailed id
  | .sleep i => s.resume i .slept id
  | .handle i ok => do
    let m ← s.members[i]?
    match m.reader.stage with
    | .handling p r ev =>
      let handled := if ok then (p, r.offset, ev) :: s.handled else s.handled
      { s with handled := handled }.resume i (.handled ok) id
    | _ => none
  | .commit i ok now => do
    let m ← s.members[i]?
    match m.reader.stage with
    | .committing p r =>
      let s' := if now then { s with committed := Function.update s.committed p (r.offset + 1) }
        else { s with late := s.late ++ [(p, r.offset + 1)] }
      s'.resume i (.committed ok) id
    | _ => none
  | .land k => do
    let (p, offset) ← s.late[k]?
    some { s with committed := Function.update s.committed p offset, late := s.late.eraseIdx k }
  | .close i source => s.resume i (.closed source) id
  | .wait i => s.resume i .waited id

end Group

/-- A new group on a topic that may already hold records, in the order of their offsets. -/
structure Fresh (s : Group codec) : Prop where
  sorted : ∀ p, (s.logs p).Pairwise fun a b => a.offset < b.offset
  committed : ∀ p, s.committed p = 0
  members : s.members = []
  late : s.late = []
  handled : s.handled = []

/-- The group as a transition system. -/
def group (codec : EventCodec) : System (Group codec) (Move codec.Payload) :=
  System.ofStep Fresh Group.next

end OtusApp.Consumer
