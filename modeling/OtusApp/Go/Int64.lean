import Mathlib.Algebra.Group.Nat.Defs
import Mathlib.Algebra.Ring.Int.Defs
import Mathlib.Data.Int.Basic

/-!
# Integers of a fixed width

Arithmetic on `int64` and on `int` wraps modulo 2^64, a conversion to `int32` modulo 2^32. A value
is the integer it represents.
-/

namespace OtusApp.Go

/-- A value of `int64`, or of `int`. -/
def Fits64 (x : Int) : Prop := -2 ^ 63 ≤ x ∧ x < 2 ^ 63

/-- The value of a result that may have left the range of `int64`. -/
def wrap64 (x : Int) : Int := Int.bmod x (2 ^ 64)

/-- Nothing wraps inside the range. -/
theorem wrap64_of_fits {x : Int} (low : -2 ^ 63 ≤ x) (high : x < 2 ^ 63) : wrap64 x = x := by
  rw [wrap64, Int.bmod_def]
  omega

/-- `int32(x)`. -/
def wrap32 (x : Int) : Int := Int.bmod x (2 ^ 32)

theorem wrap32_of_fits {x : Int} (low : -2 ^ 31 ≤ x) (high : x < 2 ^ 31) : wrap32 x = x := by
  rw [wrap32, Int.bmod_def]
  omega

/-- `rand.Int64N`: a draw below `n`, from an arbitrary source. It panics when `n` is not
positive. -/
def int64N (n : Int) (source : Nat) : Option Int := if n ≤ 0 then none else some (source % n)

theorem int64N_of_pos {n : Int} (h : 0 < n) (source : Nat) :
    ∃ draw, int64N n source = some draw ∧ 0 ≤ draw ∧ draw < n := by
  refine ⟨source % n, if_neg (by omega), ?_, ?_⟩
  · exact Int.emod_nonneg _ (by omega)
  · exact Int.emod_lt_of_pos _ h

end OtusApp.Go
