import OtusApp.Lib.Protocol
import Mathlib.Logic.Function.Basic

/-!
# Resources in scopes

A program that opens resources one after another and closes them in the reverse order, as deferred
calls do (`Prog.deferring`). What is open is a stack; while a resource is open, so is all that was
open when it was opened, its scope (`Scoped.mem`).
-/

namespace Program

variable {E : Type} {R : E → Type} {α M : Type}

/-- `defer cleanup`, in front of the body. -/
def Prog.deferring (cleanup : Prog E R Unit) (body : Prog E R α) : Prog E R α := do
  let result ← body
  cleanup
  return result

theorem Prog.Follows.deferring {next : Protocol E R M} {mid : M → α → Prop} {post : M → α → Prop}
    {cleanup : Prog E R Unit} {body : Prog E R α} {m : M} (h : body.Follows next mid m)
    (cleans : ∀ m a, mid m a → cleanup.Follows next (fun m' _ => post m' a) m) :
    (Prog.deferring cleanup body).Follows next post m :=
  h.bind fun m a is => (cleans m a is).bind fun _ _ done => done

variable {K : Type} {scope : K → List K} {stack : List K} {r x : K}

/-- The scope of each open resource is what lies below it. -/
def Scoped (scope : K → List K) (stack : List K) : Prop :=
  ∀ above r below, stack = above ++ r :: below → scope r = below

theorem scoped_nil (scope : K → List K) : Scoped scope [] := by
  intro above r below split
  simp at split

/-- A resource is opened. -/
theorem Scoped.push [DecidableEq K] (h : Scoped scope stack) (new : r ∉ stack) :
    Scoped (Function.update scope r stack) (r :: stack) := by
  intro above x below split
  cases above with
  | nil =>
    obtain ⟨rfl, rfl⟩ := List.cons.inj split
    exact Function.update_self _ _ _
  | cons y above =>
    obtain ⟨rfl, rest⟩ := List.cons.inj split
    have other : x ≠ r := by
      rintro rfl
      simp [rest] at new
    rw [Function.update_of_ne other]
    exact h above x below rest

/-- The resource opened last is closed. -/
theorem Scoped.pop (h : Scoped scope (r :: stack)) : Scoped scope stack := by
  intro above x below split
  exact h (r :: above) x below (by simp [split])

/-- While a resource is open, so is its scope. -/
theorem Scoped.mem (h : Scoped scope stack) (open_ : r ∈ stack) (inside : x ∈ scope r) :
    x ∈ stack := by
  obtain ⟨above, below, rfl⟩ := List.append_of_mem open_
  rw [h above r below rfl] at inside
  simp [inside]

end Program
