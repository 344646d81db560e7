import OtusApp.Lib.Program
import OtusApp.Resilience.Breaker

/-!
# Calls through the breaker

`Breaker.Do` as the code of a program: what it asks of its context and of the breaker, and the call
it makes in between. The variables that the call's closure writes to are given and returned besides
its error.
-/

namespace OtusApp.Resilience

open Program

/-- How a program reaches its context and its breaker, and what its errors are. -/
structure Guard (E : Type) (R : E → Type) (ε : Type) where
  err : Prog E R (Option ε)
  admit_ : Prog E R (Option UInt64)
  complete : UInt64 → Outcome → Prog E R Unit
  errOpen : ε
  canceled : ε → Bool

namespace Guard

variable {E : Type} {R : E → Type} {ε σ : Type}

/-- What the breaker is told of an error. -/
def outcome (g : Guard E R ε) : Option ε → Outcome
  | none => .success
  | some e => if g.canceled e then .canceled else .error

/-- `Do` of a call that the breaker has admitted. -/
def admitted (g : Guard E R ε) (generation : UInt64) (call : Prog E R (Option ε × σ)) :
    Prog E R (Option ε × σ) := do
  let result ← call
  g.complete generation (g.outcome result.1)
  return result

/-- `Do`, with the variables of the closure as they are before the call. -/
def do_ (g : Guard E R ε) (vars : σ) (call : Prog E R (Option ε × σ)) :
    Prog E R (Option ε × σ) := do
  match ← g.err with
  | some e => return (some e, vars)
  | none =>
    match ← g.admit_ with
    | none => return (some g.errOpen, vars)
    | some generation => g.admitted generation call

end Guard

end OtusApp.Resilience
