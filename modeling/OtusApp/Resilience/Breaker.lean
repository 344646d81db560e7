import OtusApp.Lib.System
import OtusApp.Resilience.Retry
import Mathlib.Algebra.Group.Nat.Defs

/-!
# The circuit breaker

`Breaker` with its two critical sections, `admit` and `complete`, each under the lock and so one
step. Between them a call is in flight with the generation it was admitted in; any number of calls
are in flight, and they complete in any order, under any clock readings.

The state keeps three things the code does not: how many transitions there have been, in which of
the periods between them a call was admitted and whether as a probe, and what the calls of the
current period answered. The generation is a `uint64`: it is the number of transitions, until it
wraps.
-/

namespace OtusApp.Resilience

open Go Transition

/-- `state`. -/
inductive State
  | closed
  | open_
  | halfOpen
deriving DecidableEq, Repr

/-- The fields of `Breaker` that its lock protects. -/
structure Breaker where
  state : State
  failures : Int
  generation : UInt64
  probe : Bool
  until_ : Instant
deriving DecidableEq, Repr

/-- What a call returned: `nil`, an error, or an error that wraps `context.Canceled`. -/
inductive Outcome
  | success
  | error
  | canceled
deriving DecidableEq, Repr

namespace Breaker

/-- `NewBreaker`. -/
def new : Breaker := ⟨.closed, 0, 0, false, 0⟩

/-- `transition`. -/
def transition (b : Breaker) (next : State) : Breaker :=
  { b with state := next, generation := b.generation + 1 }

/-- `admit`, with the clock at `now`: the generation of an admitted call. -/
def admit_ (b : Breaker) (now : Instant) : Breaker × Option UInt64 :=
  if b.state = .open_ ∧ now < b.until_ then (b, none)
  else
    let b := if b.state = .open_ then b.transition .halfOpen else b
    if b.state = .halfOpen then
      if b.probe then (b, none) else ({ b with probe := true }, some b.generation)
    else (b, some b.generation)

/-- The circuit opens until five to ten seconds from now. -/
def trip (b : Breaker) (now : Instant) (source : Nat) : Breaker :=
  match jitter 1 (10 * Duration.second) (10 * Duration.second) source with
  | none => b
  | some delay => { b with until_ := now + delay }.transition .open_

/-- `complete`, with the clock at `now` and a random draw from `source`. -/
def complete (b : Breaker) (generation : UInt64) (outcome : Outcome) (now : Instant)
    (source : Nat) : Breaker :=
  if generation ≠ b.generation then b
  else
    let b := { b with probe := false }
    match outcome with
    | .canceled => b
    | .success =>
      let b := { b with failures := 0 }
      if b.state = .halfOpen then b.transition .closed else b
    | .error =>
      let b := { b with failures := wrap64 (b.failures + 1) }
      if b.state = .halfOpen ∨ b.failures ≥ 3 then b.trip now source else b

theorem admit_closed {b : Breaker} (closed : b.state = .closed) (now : Instant) :
    b.admit_ now = (b, some b.generation) := by
  simp [admit_, closed]

theorem complete_success_closed {b : Breaker} (closed : b.state = .closed) (generation : UInt64)
    (now : Instant) (source : Nat) :
    (b.complete generation .success now source).state = .closed := by
  rw [complete]
  split
  · exact closed
  · simp [closed]

end Breaker

/-- A call in flight: the generation it carries, the period it was admitted in, and whether it is
the trial call of a half-open circuit. -/
structure Flight where
  generation : UInt64
  period : Nat
  probe : Bool
deriving DecidableEq, Repr

/-- The breaker and the calls through it. `answers` are those of the current period that were not
cancelled, newest first. -/
structure Traffic where
  breaker : Breaker
  flights : List Flight
  transitions : Nat
  answers : List Outcome
deriving DecidableEq, Repr

/-- One critical section. -/
inductive Section
  | admit_ (now : Instant)
  | complete (i : Nat) (outcome : Outcome) (now : Instant) (source : Nat)
deriving DecidableEq, Repr

namespace Traffic

/-- The breaker after a critical section; a transition begins a new period. -/
def move (s : Traffic) (b : Breaker) (answers : List Outcome) : Traffic :=
  if b.generation = s.breaker.generation then { s with breaker := b, answers := answers }
  else { s with breaker := b, transitions := s.transitions + 1, answers := [] }

/-- `Do` up to its call: an admitted call is in flight from here on. -/
def admit_ (s : Traffic) (now : Instant) : Traffic :=
  let moved := s.move (s.breaker.admit_ now).1 s.answers
  match (s.breaker.admit_ now).2 with
  | none => moved
  | some generation =>
    let probe := moved.breaker.state = .halfOpen
    { moved with flights := ⟨generation, moved.transitions, probe⟩ :: s.flights }

/-- `Do` from its call on. -/
def complete (s : Traffic) (c : Flight) (i : Nat) (outcome : Outcome) (now : Instant)
    (source : Nat) : Traffic :=
  let answers := if c.period = s.transitions ∧ outcome ≠ .canceled then outcome :: s.answers
    else s.answers
  { s with flights := s.flights.eraseIdx i }.move
    (s.breaker.complete c.generation outcome now source) answers

/-- The step of the breaker under its callers. -/
def step (s : Traffic) : Section → Option Traffic
  | .admit_ now => some (s.admit_ now)
  | .complete i outcome now source =>
    match s.flights[i]? with
    | none => none
    | some c => some (s.complete c i outcome now source)

end Traffic

/-- A new breaker. -/
def quiet : Traffic := ⟨.new, [], 0, []⟩

/-- The breaker under its callers as a transition system. -/
def traffic : System Traffic Section := System.ofStep (fun s => s = quiet) Traffic.step

/-- The time a critical section reads. -/
def Section.now : Section → Instant
  | .admit_ now => now
  | .complete _ _ now _ => now

/-- The breaker under its callers, with the last time that was read. -/
structure Clocked where
  traffic : Traffic
  clock : Instant
deriving DecidableEq, Repr

/-- The step under a clock that does not go back. -/
def Clocked.step (s : Clocked) (e : Section) : Option Clocked :=
  if s.clock ≤ e.now then (s.traffic.step e).map fun traffic => ⟨traffic, e.now⟩ else none

/-- The breaker under its callers and such a clock. -/
def clocked : System Clocked Section := System.ofStep (fun s => s.traffic = quiet) Clocked.step

/-- What is read is a `time.Time`, and so is every deadline drawn from it. -/
def Section.Timely (e : Section) : Prop := e.now.InRange ∧ (e.now + 10 * Duration.second).InRange

instance : DecidablePred Section.Timely := fun _ => inferInstanceAs (Decidable (_ ∧ _))

/-- The breaker under its callers and a clock that `time.Time` can follow. -/
def timed : System Clocked Section := clocked.restrict fun _ e => e.Timely

end OtusApp.Resilience
