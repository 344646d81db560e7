import OtusApp.Go.Http
import OtusApp.Go.Strconv
import OtusApp.Resilience.Guard

/-!
# The rate limiter

`Limiter.Middleware` in any number of replicas, each with its breaker, over one counter store and
one clock. A request's code reads the clock for its key, and some time later the script counts it;
any number of requests are under way at once, and the clock moves between any two of their calls.

The limit is the one the limiter holds throughout. `hits` is kept besides: every run of the script,
with the request it was for, newest first.
-/

namespace OtusApp.Ratelimit

open Go Resilience Program Transition

/-- `SetLimit`: a limit that is not positive is ignored. -/
def setLimit (limit n : Int) : Int := if n ≤ 0 then limit else n

/-- `clientIP`. -/
def clientIP (r : Request) : String :=
  let fwd := r.header.get "X-Forwarded-For"
  if fwd ≠ "" then trimSpace ((split fwd ',').headD "")
  else
    match splitHostPort r.remoteAddr with
    | none => r.remoteAddr
    | some (host, _) => host

/-- What a limiter holds. -/
structure Config where
  limit : Int
  window : Duration

/-- The number of the window a moment falls into; `/` rounds towards zero. -/
def windowNumber (window : Duration) (now : Instant) : Int := Int.tdiv now.unix window.seconds

/-- The key a request is counted under. -/
def windowKey (window : Duration) (r : Request) (now : Instant) : String :=
  "rl:" ++ clientIP r ++ ":" ++ formatInt (windowNumber window now) 10

/-- Why a request was not counted. -/
inductive Err
  | canceled
  | deadlineExceeded
  | open_
  | counter
deriving DecidableEq, Repr

/-- The calls of the middleware: the clock, the context, the breaker and the counter. -/
inductive Effect
  | now
  | withTimeout (timeout : Duration)
  | err (deadline : Instant)
  | admit_
  | complete (generation : UInt64) (outcome : Outcome)
  | hit (key : String) (window : Duration) (deadline : Instant)

/-- What a call returns. `withTimeout` gives the moment its context ends. -/
def Effect.Result : Effect → Type
  | .now => Instant
  | .withTimeout _ => Instant
  | .err _ => Option Err
  | .admit_ => Option UInt64
  | .complete .. => Unit
  | .hit .. => Except Err Nat

/-- The code of the middleware. -/
abbrev Handler := Prog Effect Effect.Result

/-- The breaker of the limiter, for a request whose context ends at `deadline`. -/
def breaker (deadline : Instant) : Guard Effect Effect.Result Err where
  err := .ask (Effect.err deadline)
  admit_ := .ask Effect.admit_
  complete generation outcome := .ask (Effect.complete generation outcome)
  errOpen := .open_
  canceled e := e = .canceled

/-- The closure around `Hit`; it writes `count`. -/
def hit (key : String) (window : Duration) (deadline : Instant) : Handler (Option Err × Nat) := do
  match ← (.ask (Effect.hit key window deadline) : Handler (Except Err Nat)) with
  | .error e => return (some e, 0)
  | .ok count => return (none, count)

/-- What became of a request: the key it was to be counted under, and whether it went on to
`next`. -/
structure Verdict where
  key : String
  passed : Bool
deriving DecidableEq, Repr

/-- The last step of the middleware: a request that could not be counted goes on too. -/
def verdict (cfg : Config) (key : String) : Option Err × Nat → Verdict
  | (some _, _) => ⟨key, true⟩
  | (none, count) => ⟨key, ¬ (count : Int) > cfg.limit⟩

/-- `Limiter.Middleware`. -/
def middleware (cfg : Config) (r : Request) : Handler Verdict := do
  let now ← .ask Effect.now
  let key := windowKey cfg.window r now
  let deadline ← .ask (Effect.withTimeout (500 * Duration.millisecond))
  let counted ← (breaker deadline).do_ 0 (hit key cfg.window deadline)
  return verdict cfg key counted

/-! ## The replicas over their store -/

/-- A counter in the store, and when it is removed. -/
structure Counter where
  count : Nat
  expires : Instant
deriving DecidableEq, Repr

/-- A run of the script. -/
structure Hit where
  caller : Nat
  key : String
  time : Instant
  count : Nat
deriving DecidableEq, Repr

/-- What the requests share. -/
structure Env where
  clock : Instant
  counters : String → Option Counter
  breakers : Nat → Breaker
  hits : List Hit

/-- A request, and the replica it came to. -/
structure Incoming where
  replica : Nat
  request : Request

/-- What becomes of a call. -/
inductive Fate
  | ok
  | failed
  | lost
deriving DecidableEq, Repr

/-- What a call leaves open: what becomes of it, and the draw of a breaker that opens. -/
structure Choice where
  fate : Fate
  source : Nat

/-- The counter that `INCR` finds: one that has expired is gone. -/
def live (s : Env) (key : String) : Option Counter :=
  (s.counters key).filter fun c => s.clock < c.expires

/-- `INCR`, and `PEXPIRE` of a counter that is new. -/
def incr (s : Env) (key : String) (window : Duration) : Counter :=
  match live s key with
  | none => ⟨1, s.clock + window.milliseconds * Duration.millisecond⟩
  | some c => { c with count := c.count + 1 }

/-- `hitScript`. -/
def hitScript (s : Env) (caller : Nat) (key : String) (window : Duration) : Env :=
  let c := incr s key window
  { s with
    counters := fun k => if k = key then some c else s.counters k
    hits := ⟨caller, key, s.clock, c.count⟩ :: s.hits }

/-- The breaker of one replica is replaced. -/
def setBreaker (s : Env) (replica : Nat) (b : Breaker) : Env :=
  { s with breakers := fun r => if r = replica then b else s.breakers r }

/-- How a call is answered. The script runs before the context ends, or the call fails; the answer
of one that ran may be lost. -/
def respond (s : Env) (caller : Nat × Incoming) :
    (e : Effect) → Choice → Option (e.Result × Env)
  | .now, _ => some (s.clock, s)
  | .withTimeout timeout, _ => some (s.clock + timeout, s)
  | .err deadline, ⟨.ok, _⟩ => if s.clock ≤ deadline then some (none, s) else none
  | .err deadline, ⟨.failed, _⟩ =>
    if deadline ≤ s.clock then some (some .deadlineExceeded, s) else none
  | .err _, ⟨.lost, _⟩ => some (some .canceled, s)
  | .admit_, _ =>
    let admission := (s.breakers caller.2.replica).admit_ s.clock
    some (admission.2, setBreaker s caller.2.replica admission.1)
  | .complete generation outcome, ⟨_, source⟩ =>
    let b := (s.breakers caller.2.replica).complete generation outcome s.clock source
    some ((), setBreaker s caller.2.replica b)
  | .hit key window deadline, ⟨.ok, _⟩ =>
    if s.clock ≤ deadline then
      some (.ok (incr s key window).count, hitScript s caller.1 key window)
    else none
  | .hit key window _, ⟨.lost, _⟩ => some (.error .counter, hitScript s caller.1 key window)
  | .hit .., ⟨.failed, _⟩ => some (.error .counter, s)

/-- The clock moves on. -/
def tick (s : Env) (elapsed : Nat) : Option Env := some { s with clock := s.clock + elapsed }

/-- The replicas over their store. -/
def machine (cfg : Config) : Machine Incoming Effect Effect.Result Verdict Env Choice Nat :=
  ⟨fun q => middleware cfg q.request, fun s _ => some s, respond, tick⟩

/-- Nothing has been counted yet, at any time of the clock. -/
def Fresh (s : Env) : Prop :=
  s.counters = (fun _ => none) ∧ s.breakers = (fun _ => .new) ∧ s.hits = []

/-- The state of the limiters. -/
abbrev State := Pool Incoming Effect Effect.Result Verdict Env

/-- Whether a request has gone on to `next` under a key. -/
def passedUnder (key : String) : Handler Verdict → Bool
  | .ret v => v.passed && v.key = key
  | .call _ _ => false

/-- How many requests have gone on to `next` under a key. -/
def passes (w : State) (key : String) : Nat := w.procs.countP fun p => passedUnder key p.2

end OtusApp.Ratelimit
