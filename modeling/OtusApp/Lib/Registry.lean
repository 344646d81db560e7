import Mathlib.Logic.Function.Basic

/-!
# What is created once

A registry of things by name: the first to create a name decides what it is, and nothing is removed.
So whatever is known of a name stays true (`Le`).
-/

/-- What is there, by name. -/
abbrev Registry (K V : Type) := K → Option V

namespace Registry

variable {K V : Type} [DecidableEq K] {reg reg' reg'' : Registry K V} {k x : K} {v y : V}

/-- Create a thing, unless its name is taken. -/
def create (reg : Registry K V) (k : K) (v : V) : Registry K V :=
  if (reg k).isSome then reg else Function.update reg k (some v)

/-- All that is there stays as it is. -/
def Le (reg reg' : Registry K V) : Prop := ∀ k v, reg k = some v → reg' k = some v

omit [DecidableEq K] in
theorem Le.refl (reg : Registry K V) : Le reg reg := fun _ _ is => is

omit [DecidableEq K] in
theorem Le.trans (h : Le reg reg') (h' : Le reg' reg'') : Le reg reg'' :=
  fun k v is => h' k v (h k v is)

omit [DecidableEq K] in
theorem Le.isSome (h : Le reg reg') (there : (reg k).isSome) : (reg' k).isSome := by
  obtain ⟨v, is⟩ := Option.isSome_iff_exists.mp there
  simp [h k v is]

theorem create_le (reg : Registry K V) (k : K) (v : V) : Le reg (reg.create k v) := by
  intro x y is
  by_cases taken : (reg k).isSome
  · rw [create, if_pos taken]
    exact is
  · have other : x ≠ k := by
      rintro rfl
      simp [is] at taken
    rw [create, if_neg taken, Function.update_of_ne other]
    exact is

theorem create_isSome (reg : Registry K V) (k : K) (v : V) : ((reg.create k v) k).isSome := by
  by_cases taken : (reg k).isSome
  · rwa [create, if_pos taken]
  · simp [create, taken]

/-- What is there was there, or has just been created. -/
theorem create_cases (is : reg.create k v x = some y) :
    reg x = some y ∨ x = k ∧ y = v ∧ reg k = none := by
  by_cases taken : (reg k).isSome
  · rw [create, if_pos taken] at is
    exact .inl is
  · rw [create, if_neg taken] at is
    by_cases same : x = k
    · subst same
      rw [Function.update_self] at is
      exact .inr ⟨rfl, (Option.some.inj is).symm, by simpa using taken⟩
    · rw [Function.update_of_ne same] at is
      exact .inl is

end Registry
