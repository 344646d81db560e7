import OtusApp.Lib.Program

/-!
# A lock in etcd

`WithLock` runs a function under a mutex of etcd. `Mutex.Lock` of the client library puts a key with
the lease of the session and waits until no older key is left. Without a session the function runs
all the same, without the lock.

etcd is as far as the one mutex sees it: the sessions whose lease lives, and the keys under the
mutex, the oldest first. A lease may expire at any time, of a session that is still in use too, and
its key goes with it. Each caller has a session of its own, which goes by the caller's number.
-/

namespace OtusApp.Coord

open Program

/-- What became of the key: it is the oldest, it waits behind another, or it could not be put. -/
inductive Acquired
  | owner
  | waiting
  | failed
deriving DecidableEq, Repr

/-- A call to the client library. -/
inductive LockCall
  | newSession
  | tryAcquire
  | waitDeletes
  | unlock
  | close

/-- What a call returns, an error as whether it is `nil`. -/
def LockCall.Result : LockCall → Type
  | .tryAcquire => Acquired
  | .newSession | .waitDeletes | .unlock | .close => Bool

section

variable {E : Type} {R : E → Type} {α : Type} (etcd : (e : LockCall) → Prog E R e.Result)

/-- `Mutex.Lock`. -/
def lock : Prog E R Bool := do
  match ← etcd .tryAcquire with
  | .owner => return true
  | .waiting => etcd .waitDeletes
  | .failed => return false

/-- `WithLock`; a coordinator that is not configured is `nil`. The deferred calls run in the reverse
order. -/
def withLock (configured : Bool) (fn : Prog E R (Option α)) : Prog E R (Option α) := do
  if !configured then fn
  else
    let session : Bool ← etcd .newSession
    if !session then fn
    else
      if ← lock etcd then
        let result ← fn
        let _ ← etcd .unlock
        let _ ← etcd .close
        return result
      else
        let _ ← etcd .close
        return none

end

/-! ## etcd -/

/-- The sessions whose lease lives, and the keys of the mutex, each by the number of its caller.
`expired` are those whose lease has expired, and `refused` those who were given no session. -/
structure Locks where
  sessions : List Nat
  keys : List Nat
  expired : List Nat
  refused : List Nat

/-- How a call ends: well, or with an error, and then with or without effect. -/
inductive LockChoice
  | done
  | failed (effect : Bool)

namespace Locks

def empty : Locks := ⟨[], [], [], []⟩

/-- The key is deleted. -/
def delete (s : Locks) (i : Nat) : Locks := { s with keys := s.keys.filter (· ≠ i) }

/-- The lease is revoked, and the key with it. -/
def revoke (s : Locks) (i : Nat) : Locks :=
  { s.delete i with sessions := s.sessions.filter (· ≠ i) }

/-- The key is put, if its lease lives. -/
def put (s : Locks) (i : Nat) : Locks :=
  if i ∈ s.sessions then { s with keys := s.keys ++ [i] } else s

/-- The place of the next key. -/
def place (s : Locks) : Acquired := if s.keys = [] then .owner else .waiting

/-- How a call of caller `i` is answered. -/
def respond (s : Locks) (i : Nat) : (e : LockCall) → LockChoice → Option (e.Result × Locks)
  | .newSession, .done => some (true, { s with sessions := i :: s.sessions })
  | .newSession, .failed _ => some (false, { s with refused := i :: s.refused })
  | .tryAcquire, .done => if i ∈ s.sessions then some (s.place, s.put i) else none
  | .tryAcquire, .failed effect => some (.failed, if effect then s.put i else s)
  | .waitDeletes, .done => if s.keys.head? = some i then some (true, s) else none
  | .waitDeletes, .failed effect => some (false, if effect then s.delete i else s)
  | .unlock, .done => some (true, s.delete i)
  | .unlock, .failed effect => some (false, if effect then s.delete i else s)
  | .close, .done => some (true, s.revoke i)
  | .close, .failed effect => some (false, if effect then s.revoke i else s)

/-- The lease of caller `i` expires. -/
def expire (s : Locks) (i : Nat) : Option Locks :=
  if i ∈ s.sessions then some { s.revoke i with expired := i :: s.expired } else none

end Locks

end OtusApp.Coord
