import OtusApp.Lib.System
import OtusApp.Lib.Versioned
import OtusApp.Go.Strconv
import OtusApp.Go.Strings
import OtusApp.Ratelimit.Middleware

/-!
# Watching a number in etcd

`WatchInt` keeps the limiter's limit at the value of one key. It reads the key, opens a watch from
the revision after the one it read at, applies the events the watch delivers, and when the watch
breaks pauses and begins again. A read that fails returns revision 0, and the watch is then opened
without a revision.

The store is etcd as far as the key sees it: a revision that every write moves on, and the history
of the key. A watch opened at a revision delivers every event from it on, one opened without a
revision the events after its opening, in the order of their revisions, in batches of any size.
-/

namespace OtusApp.Coord

open Transition Versioned Go Ratelimit

/-- Where the loop of `WatchInt` stands. `watching next` has been delivered every event it will be
before revision `next`. -/
inductive Phase
  | fetching
  | opening
  | watching (next : Nat)
  | pausing
  | stopped
deriving DecidableEq, Repr

/-- The store, the loop's variable `rev`, and the limiter's limit. A change of the key without a
value is its deletion. -/
structure Watch where
  revision : Nat
  events : List (Change (Option String))
  phase : Phase
  rev : Nat
  limit : Int
deriving DecidableEq, Repr

/-- One step: of other clients of the store, then of the loop. -/
inductive Step
  | put (raw : String)
  | delete
  | other
  | fetch (ok : Bool)
  | watch
  | deliver (n : Nat) (header : Nat)
  | errorResponse
  | interrupt
  | pause (cancelled : Bool)
deriving DecidableEq, Repr

/-- The value of the key. -/
def Watch.current (s : Watch) : Option String := s.events.head?.bind Change.value

/-- `applyInt` with `SetLimit`. -/
def applyInt (limit : Int) (raw : String) : Int :=
  match parseInt (trimSpace raw) with
  | none => limit
  | some n => setLimit limit n

/-- One event of a response: only a put is applied. -/
def applyEvent (limit : Int) (ev : Change (Option String)) : Int :=
  match ev.value with
  | none => limit
  | some raw => applyInt limit raw

/-- A write to the store, of the key or of another one. -/
def Watch.write (s : Watch) (change : Option (Option String)) : Watch :=
  { s with
    revision := s.revision + 1
    events := (change.map fun value => ⟨s.revision + 1, value⟩).toList ++ s.events }

/-- The step of the store and the loop. -/
def Watch.step (s : Watch) : Step → Option Watch
  | .put raw => some (s.write (some (some raw)))
  | .delete => some (s.write (some none))
  | .other => some (s.write none)
  | .fetch ok =>
    if s.phase ≠ .fetching then none
    else if ok then
      some { s with
        phase := .opening
        rev := s.revision
        limit := (s.current.map (applyInt s.limit)).getD s.limit }
    else some { s with phase := .opening, rev := 0 }
  | .watch =>
    if s.phase ≠ .opening then none
    else some { s with phase := .watching (if s.rev > 0 then s.rev + 1 else s.revision + 1) }
  | .deliver n header =>
    match s.phase with
    | .watching next =>
      if s.revision < header then none
      else
        let batch := (pending s.events next).take n
        some { s with
          phase := .watching (following batch next)
          rev := if header > s.rev then header else s.rev
          limit := batch.foldl applyEvent s.limit }
    | _ => none
  -- the loop over the responses goes on after an error
  | .errorResponse =>
    match s.phase with
    | .watching _ => some s
    | _ => none
  | .interrupt =>
    match s.phase with
    | .watching _ => some { s with phase := .pausing }
    | _ => none
  | .pause cancelled =>
    if s.phase ≠ .pausing then none
    else some { s with phase := if cancelled then .stopped else .fetching }

/-- Any store, and `WatchInt` called with any limit. -/
structure Called (s : Watch) : Prop where
  started : 0 < s.revision
  ordered : Ordered s.events
  written : ∀ c ∈ s.events, c.version ≤ s.revision
  phase : s.phase = .fetching

/-- The store and the loop as a transition system. -/
def watchInt : System Watch Step := System.ofStep Called Watch.step

end OtusApp.Coord
