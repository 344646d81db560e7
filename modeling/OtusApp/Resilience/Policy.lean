import OtusApp.Lib.Program
import OtusApp.Resilience.Retry

/-!
# Repeated calls

`Policy.Do` as the code of a program, over what it asks of its context, its timer and its metrics.
The variables that the call's closure writes to go from one attempt to the next.
-/

namespace OtusApp.Resilience

open Go Program

/-- `Policy`. -/
structure Policy where
  attempts : Int
  base : Duration
  max_ : Duration

/-- How a program reaches its context, its metrics, its random source and its timer. `wait` answers
the error of a context that has ended by the end of `Wait`. -/
structure Retrier (E : Type) (R : E → Type) (ε : Type) where
  err : Prog E R (Option ε)
  retried : Prog E R Unit
  exhausted : Prog E R Unit
  draw : Prog E R Nat
  wait : Duration → Prog E R (Option ε)

namespace Policy

variable {E : Type} {R : E → Type} {ε σ : Type}

/-- The end of an attempt whose error may be repeated, unless the context has ended. -/
def repeatable (r : Retrier E R ε) (vars : σ) (next : Prog E R (Option ε × σ)) :
    Prog E R (Option ε × σ) := do
  match ← r.err with
  | some ended => return (some ended, vars)
  | none => next

/-- The call of an attempt; `next` goes on after an error that may be repeated. -/
def attempted (r : Retrier E R ε) (retryable : ε → Bool) (next : ε → σ → Prog E R (Option ε × σ)) :
    Option ε × σ → Prog E R (Option ε × σ)
  | (none, vars) => return (none, vars)
  | (some e, vars) => if retryable e then repeatable r vars (next e vars) else return (some e, vars)

/-- The metric of a repetition. -/
def counted (r : Retrier E R ε) (attempt : Int) : Prog E R Unit :=
  if attempt > 1 then r.retried else return

/-- One round of the loop. -/
def round (r : Retrier E R ε) (retryable : ε → Bool) (call : σ → Prog E R (Option ε × σ))
    (attempt : Int) (vars : σ) (next : ε → σ → Prog E R (Option ε × σ)) :
    Prog E R (Option ε × σ) := do
  match ← r.err with
  | some ended => return (some ended, vars)
  | none =>
    counted r attempt
    let result ← call vars
    attempted r retryable next result

/-- The loop of `Do`, with `left` attempts after this one. -/
def loop (p : Policy) (r : Retrier E R ε) (retryable : ε → Bool)
    (call : σ → Prog E R (Option ε × σ)) : Nat → Int → σ → Prog E R (Option ε × σ)
  | 0, attempt, vars => round r retryable call attempt vars fun e vars => do
    r.exhausted
    return (some e, vars)
  | left + 1, attempt, vars => round r retryable call attempt vars fun _ vars => do
    let source ← r.draw
    match ← r.wait ((jitter attempt p.base p.max_ source).getD 0) with
    | some ended => return (some ended, vars)
    | none => loop p r retryable call left (attempt + 1) vars

/-- `Policy.Do`: the attempts are numbered from one to `max(p.Attempts, 1)`. -/
def do_ (p : Policy) (r : Retrier E R ε) (retryable : ε → Bool)
    (call : σ → Prog E R (Option ε × σ)) (vars : σ) : Prog E R (Option ε × σ) :=
  loop p r retryable call (max p.attempts 1 - 1).toNat 1 vars

end Policy

end OtusApp.Resilience
