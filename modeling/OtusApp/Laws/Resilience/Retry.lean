import OtusApp.Resilience.Retry
import Mathlib.Algebra.Order.Ring.Int

/-!
# The delays between attempts

The loop of `Jitter` ends with a power of two times the base, or with the limit, whichever is
smaller (`grow_eq`), and it computes nothing that leaves the range of `int64`. What is drawn lies in
the upper half of that bound.
-/

namespace OtusApp.Resilience

open Go

/-- The delay of an attempt before it is spread. -/
def bound (base limit attempt : Int) : Int :=
  min (max limit (max base 1)) (max base 1 * 2 ^ (max attempt 1 - 1).toNat)

/-- What the loop of `Jitter` computes from its turn `n` on, before it wraps: `delay * 2` and
`n + 1` in each turn. -/
def results (limit : Int) : Nat → Int → Int → List Int
  | 0, _, _ => []
  | turns + 1, n, delay =>
    if delay < limit then
      if delay > Int.tdiv limit 2 then []
      else delay * 2 :: (n + 1) :: results limit turns (n + 1) (wrap64 (delay * 2))
    else []

/-! ## The loop -/

variable {limit delay : Int}

/-- A delay that is not past half of the limit is doubled without wrapping, and not past the
limit. -/
theorem double_fits (positive : 0 < delay) (half : ¬delay > Int.tdiv limit 2)
    (fits : limit < 2 ^ 63) (above : delay < limit) :
    wrap64 (delay * 2) = delay * 2 ∧ 0 < delay * 2 ∧ delay * 2 ≤ limit := by
  have halved : Int.tdiv limit 2 = limit / 2 := Int.tdiv_eq_ediv_of_nonneg (by omega)
  have below : delay * 2 ≤ limit := by omega
  exact ⟨wrap64_of_fits (by omega) (by omega), by omega, below⟩

theorem le_mul_two_pow (positive : 0 < delay) (turns : Nat) : delay ≤ delay * 2 ^ turns :=
  le_mul_of_one_le_right positive.le (one_le_pow₀ (by decide))

/-- **The loop** ends with the smaller one of the limit and as many doublings as it has turns. -/
theorem grow_eq (turns : Nat) (positive : 0 < delay) (below : delay ≤ limit)
    (fits : limit < 2 ^ 63) :
    grow limit turns delay = min limit (delay * 2 ^ turns) := by
  induction turns generalizing delay with
  | zero =>
    rw [grow, pow_zero, mul_one]
    exact (min_eq_right below).symm
  | succ turns ih =>
    have doubled : delay * 2 ^ (turns + 1) = delay * 2 * 2 ^ turns := by rw [pow_succ', mul_assoc]
    rw [grow, doubled]
    split
    · next above =>
      split
      · next half =>
        -- the limit is less than twice the delay, also where it is odd
        have past : Int.tdiv limit 2 < delay := half
        have halved : Int.tdiv limit 2 = limit / 2 := Int.tdiv_eq_ediv_of_nonneg (by omega)
        have twice : limit ≤ delay * 2 := by omega
        exact (min_eq_left (twice.trans (le_mul_two_pow (by omega) turns))).symm
      · next half =>
        obtain ⟨same, positive', below'⟩ := double_fits positive half fits above
        rw [same]
        exact ih positive' below'
    · next reached =>
      have same : delay = limit := le_antisymm below (not_lt.mp reached)
      subst same
      have twice : delay ≤ delay * 2 := by omega
      exact (min_eq_left (twice.trans (le_mul_two_pow (by omega) turns))).symm

/-- Nothing the loop computes leaves the range. -/
theorem results_fit (turns : Nat) {n : Int} (first : 0 ≤ n) (last : n + turns < 2 ^ 63)
    (positive : 0 < delay) (fits : limit < 2 ^ 63) :
    ∀ x ∈ results limit turns n delay, Fits64 x := by
  induction turns generalizing n delay with
  | zero => exact fun _ mem => absurd mem List.not_mem_nil
  | succ turns ih =>
    intro x mem
    rw [results] at mem
    split at mem
    · next above =>
      split at mem
      · cases mem
      · next half =>
        obtain ⟨same, positive', below'⟩ := double_fits positive half fits above
        rw [same] at mem
        rcases List.mem_cons.mp mem with rfl | mem
        · exact ⟨by omega, by omega⟩
        · rcases List.mem_cons.mp mem with rfl | mem
          · exact ⟨by omega, by omega⟩
          · exact ih (by omega) (by omega) positive' x mem
    · cases mem

/-! ## The bound -/

theorem bound_pos (base limit attempt : Int) : 0 < bound base limit attempt := by
  have least : (0 : Int) < max base 1 := by omega
  have power := le_mul_two_pow least (max attempt 1 - 1).toNat
  exact lt_min (by omega) (by omega)

/-- The bound does not decrease from one attempt to a later one. -/
theorem bound_mono (base limit : Int) {attempt later : Int} (h : attempt ≤ later) :
    bound base limit attempt ≤ bound base limit later := by
  apply min_le_min_left
  apply mul_le_mul_of_nonneg_left
  · exact pow_le_pow_right₀ (by decide) (by omega)
  · omega

theorem bound_le (base limit attempt : Int) : bound base limit attempt ≤ max limit (max base 1) :=
  min_le_left _ _

theorem le_bound (base limit attempt : Int) : max base 1 ≤ bound base limit attempt := by
  have least : (0 : Int) < max base 1 := by omega
  exact le_min (le_max_right _ _) (le_mul_two_pow least _)

theorem jitter_delay {base limit : Int} (attempt : Int) (fits : Fits64 base)
    (fits' : Fits64 limit) :
    grow (max limit (max base 1)) (attempt - 1).toNat (max base 1) = bound base limit attempt := by
  obtain ⟨_, high⟩ := fits
  obtain ⟨_, high'⟩ := fits'
  have turns : (attempt - 1).toNat = (max attempt 1 - 1).toNat := by omega
  rw [grow_eq _ (by omega) (by omega) (by omega), turns]
  rfl

/-- **`Jitter`** draws from the upper half of the bound, and computes it without wrapping. -/
theorem jitter_draws {base limit : Int} (attempt : Int) (fits : Fits64 base) (fits' : Fits64 limit)
    (source : Nat) :
    let d :=
  bound base limit attempt
    (0 < d - Int.tdiv d 2 ∧ Fits64 (d - Int.tdiv d 2)) ∧
    ∃ draw, int64N (d - Int.tdiv d 2) source = some draw ∧ Fits64 (Int.tdiv d 2 + draw) ∧
      jitter attempt base limit source = some (Int.tdiv d 2 + draw) ∧
      d / 2 ≤ Int.tdiv d 2 + draw ∧ Int.tdiv d 2 + draw < d := by
  intro d
  have positive : 0 < d := bound_pos base limit attempt
  have below : d ≤ max limit (max base 1) := bound_le base limit attempt
  have high : d < 2 ^ 63 := by
    have := fits.2
    have := fits'.2
    omega
  have halved : Int.tdiv d 2 = d / 2 := Int.tdiv_eq_ediv_of_nonneg (by omega)
  have wide : Fits64 (d - Int.tdiv d 2) := ⟨by omega, by omega⟩
  obtain ⟨draw, drawn, least, most⟩ := int64N_of_pos (show 0 < d - Int.tdiv d 2 by omega) source
  have sum : Fits64 (Int.tdiv d 2 + draw) := ⟨by omega, by omega⟩
  refine ⟨⟨by omega, wide⟩, draw, drawn, sum, ?_, by omega, by omega⟩
  have delayed := jitter_delay attempt fits fits'
  simp only [jitter, delayed]
  rw [wrap64_of_fits wide.1 wide.2, drawn, Option.map_some, wrap64_of_fits sum.1 sum.2]

/-- **`Backoff`** waits for half a second at least, and less than thirty. -/
theorem backoff_between (attempt : Int) (source : Nat) :
    ∃ delay, backoff attempt source = some delay ∧
    500 * Duration.millisecond ≤ delay ∧ delay < 30 * Duration.second := by
  have fits : Fits64 Duration.second := ⟨by decide, by decide⟩
  have fits' : Fits64 (30 * Duration.second) := ⟨by decide, by decide⟩
  obtain ⟨_, draw, _, _, drawn, least, most⟩ := jitter_draws attempt fits fits' source
  have low : (1000000000 : Int) ≤ bound Duration.second (30 * Duration.second) attempt :=
    le_bound _ _ attempt
  have high : bound Duration.second (30 * Duration.second) attempt ≤ (30000000000 : Int) :=
    bound_le _ _ attempt
  have half : (500000000 : Int) ≤ bound Duration.second
    (30 * Duration.second) attempt / 2 := by omega
  exact ⟨_, drawn, half.trans least, most.trans_le high⟩

/-- **The delays are exact.** For any attempt, base and limit, the loop of `Jitter` ends with the
bound, nothing it computes leaves the range of its type, the draw is from a positive number of
values, and the delay lies in the upper half of the bound. The bound does not decrease with the
attempts, and `Backoff` stays between half a second and thirty. -/
theorem jitter_exact {attempt base limit : Int} (hattempt : Fits64 attempt) (hbase : Fits64 base)
    (hlimit : Fits64 limit) (source : Nat) :
    let d :=
  bound base limit attempt
    grow (max limit (max base 1)) (attempt - 1).toNat (max base 1) = d ∧
    (∀ x ∈ results (max limit (max base 1)) (attempt - 1).toNat 1 (max base 1), Fits64 x) ∧
    (0 < d - Int.tdiv d 2 ∧ Fits64 (d - Int.tdiv d 2)) ∧
    (∃ draw, int64N (d - Int.tdiv d 2) source = some draw ∧ Fits64 (Int.tdiv d 2 + draw) ∧
      jitter attempt base limit source = some (Int.tdiv d 2 + draw) ∧
      d / 2 ≤ Int.tdiv d 2 + draw ∧ Int.tdiv d 2 + draw < d) ∧
    (∀ later, attempt ≤ later → d ≤ bound base limit later) ∧
    ∃ delay, backoff attempt source = some delay ∧ 500 * Duration.millisecond ≤ delay ∧
      delay < 30 * Duration.second := by
  intro d
  obtain ⟨positive, draws⟩ := jitter_draws attempt hbase hlimit source
  refine ⟨jitter_delay attempt hbase hlimit, ?_, positive, draws, fun _ => bound_mono base limit,
    backoff_between attempt source⟩
  have high := hattempt.2
  have highBase := hbase.2
  have highLimit := hlimit.2
  exact results_fit _ (by decide) (by omega) (by omega) (by omega)

theorem jitter_exact_oddLimit : ∃ delay, jitter 3 3 11 4 = some delay ∧ 5 ≤ delay ∧ delay < 11 := by
  have three : Fits64 3 := ⟨by decide, by decide⟩
  have eleven : Fits64 11 := ⟨by decide, by decide⟩
  obtain ⟨_, _, _, ⟨draw, _, _, drawn, least, most⟩, _⟩ := jitter_exact three three eleven 4
  exact ⟨_, drawn, least, most⟩

end OtusApp.Resilience
