import OtusApp.Go.Duration
import OtusApp.Go.Http

/-!
# The cache

`tcache.Cache`: the space `cache` in Tarantool, with the key as its primary index, and the three
operations on it. A tuple expires by whole seconds: `Set` writes the second in which its ten seconds
end, and `Get` refuses it only in a later one.
-/

namespace OtusApp.Tcache

open Go

/-- A tuple of the space. -/
structure Tuple where
  key : String
  value : Bytes
  expires : Int
deriving DecidableEq, Repr

/-- The space, with at most one tuple under a key. -/
abbrev Space := List Tuple

/-- How long a value is kept. -/
def ttl : Duration := 10 * Duration.second

/-- `Get`, with the clock at `now`. -/
def get (space : Space) (key : String) (now : Instant) : Option Bytes :=
  match space.find? fun t => t.key = key with
  | none => none
  | some t => if now.unix > t.expires then none else some t.value

/-- `Set`: the replace request. -/
def set (space : Space) (key : String) (value : Bytes) (now : Instant) : Space :=
  ⟨key, value, (now + ttl).unix⟩ :: space.filter fun t => t.key ≠ key

/-- `Delete`. -/
def delete (space : Space) (key : String) : Space := space.filter fun t => t.key ≠ key

end OtusApp.Tcache
