import OtusApp.Lib.Protocol
import OtusApp.Lib.Registry

/-!
# The bucket is created

The end of `blobstore.New`, by any number of instances that start at once: the bucket is looked for,
made if it is missing, and its versioning is turned on. The store refuses to make a bucket that
exists. Any call may fail, with its effect or without it, and what was sent may still take effect
later.

Kept besides: who has made a bucket, and the instances a call of which has failed, that to
`EnableVersioning` apart.
-/

namespace OtusApp.Blobstore.Startup

open Program Transition

/-- A call of the client. -/
inductive Call
  | bucketExists (bucket : String)
  | makeBucket (bucket : String)
  | enableVersioning (bucket : String)
deriving DecidableEq, Repr

/-- What a call returns: `BucketExists` its answer or an error, the others whether there was no
error. -/
def Call.Result : Call → Type
  | .bucketExists _ => Option Bool
  | .makeBucket _ => Bool
  | .enableVersioning _ => Bool

/-- The code of an instance. -/
abbrev Code := Prog Call Call.Result

/-- The end of `New` with a bucket that is there: an error is only logged. -/
def versioning (bucket : String) : Code Bool := do
  let _ ← (.ask (Call.enableVersioning bucket) : Code Bool)
  return true

/-- `New` from `BucketExists` on: whether it returns a store. -/
def new (bucket : String) : Code Bool := do
  match ← (.ask (Call.bucketExists bucket) : Code (Option Bool)) with
  | none => return false
  | some true => versioning bucket
  | some false =>
    match ← (.ask (Call.makeBucket bucket) : Code Bool) with
    | false => return false
    | true => versioning bucket

/-- The buckets with who has made them, those with versioning, the calls sent with their callers,
and who has met a failure. -/
structure Store where
  buckets : Registry String Nat
  versioned : List String
  sent : List (Nat × Call)
  failed : List Nat
  warned : List Nat

/-- What a call does. -/
def Store.effect (s : Store) (caller : Nat) : Call → Store
  | .bucketExists _ => s
  | .makeBucket bucket => { s with buckets := s.buckets.create bucket caller }
  | .enableVersioning bucket =>
    if (s.buckets bucket).isSome then { s with versioned := bucket :: s.versioned } else s

/-- What becomes of a call. -/
inductive Fate
  | done
  | failed
  | lost
deriving DecidableEq, Repr

/-- A call is noted. -/
def Store.noted (s : Store) (caller : Nat) (e : Call) (fate : Fate) : Store :=
  let s := { s with sent := (caller, e) :: s.sent }
  match e, fate with
  | _, .done => s
  | .enableVersioning _, _ => { s with warned := caller :: s.warned }
  | _, _ => { s with failed := caller :: s.failed }

/-- How a call is answered. -/
def respond (s : Store) (caller : Nat × Unit) (e : Call) (fate : Fate) :
    Option (e.Result × Store) :=
  let noted := s.noted caller.1 e fate
  match e, fate with
  | .bucketExists bucket, .done => some (some (s.buckets bucket).isSome, noted)
  | .bucketExists _, _ => some (none, noted)
  | .makeBucket bucket, .done =>
    if (s.buckets bucket).isSome then some (false, noted)
    else some (true, noted.effect caller.1 (.makeBucket bucket))
  | .makeBucket _, .failed => some (false, noted)
  | .makeBucket bucket, .lost => some (false, noted.effect caller.1 (.makeBucket bucket))
  | .enableVersioning bucket, .done => some (true, noted.effect caller.1 (.enableVersioning bucket))
  | .enableVersioning _, .failed => some (false, noted)
  | .enableVersioning bucket, .lost =>
    some (false, noted.effect caller.1 (.enableVersioning bucket))

/-- A call that was sent takes effect late. -/
def late (s : Store) (k : Nat) : Option Store := (s.sent[k]?).map fun x => s.effect x.1 x.2

/-- The instances, all with one bucket. -/
def machine (bucket : String) : Machine Unit Call Call.Result Bool Store Fate Nat :=
  ⟨fun _ => new bucket, fun s _ => some s, respond, late⟩

/-- There is no bucket. -/
def empty : Store := ⟨fun _ => none, [], [], [], []⟩

/-- The state of the instances. -/
abbrev State := Pool Unit Call Call.Result Bool Store

/-- The instances as a transition system. -/
def starting (bucket : String) : System State (Move Unit Fate Nat) :=
  (machine bucket).system fun s => s = empty

end OtusApp.Blobstore.Startup
