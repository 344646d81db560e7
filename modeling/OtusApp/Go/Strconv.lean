import OtusApp.Go.Strings
import Mathlib.Data.Int.Basic
import Mathlib.Data.Nat.Digits.Defs

/-!
# Numbers as text

`strconv.ParseInt` with base 10 and 64 bits: an optional sign, one digit or more, and a value in the
range of `int64`. Which of its errors it reports is not kept. `strconv.FormatInt` for a base up to
36.
-/

namespace OtusApp.Go

/-- The value of a decimal digit. -/
def digit (c : Char) : Option Nat :=
  if '0' ≤ c ∧ c ≤ '9' then some (c.toNat - '0'.toNat) else none

/-- The value of decimal digits, after those read so far. -/
def digits : Nat → List Char → Option Nat
  | n, [] => some n
  | n, c :: rest => (digit c).bind fun d => digits (10 * n + d) rest

/-- `strconv.ParseUint` with base 10, without its bound. -/
def parseUint : List Char → Option Nat
  | [] => none
  | cs => digits 0 cs

/-- `strconv.ParseInt(s, 10, 64)`. -/
def parseInt (s : String) : Option Int :=
  match s.toList with
  | '-' :: rest => (parseUint rest).bind fun n => if n ≤ 2 ^ 63 then some (-n) else none
  | '+' :: rest => (parseUint rest).bind fun n => if n < 2 ^ 63 then some n else none
  | rest => (parseUint rest).bind fun n => if n < 2 ^ 63 then some n else none

example : parseInt "-42" = some (-42) ∧ parseInt "+7" = some 7 ∧
    parseInt "9223372036854775808" = none ∧
    parseInt "" = none ∧ parseInt "1_0" = none := by decide

theorem parseInt_empty : parseInt "" = none := rfl

/-- What is parsed is an `int64`. -/
theorem parseInt_fits {s : String} {n : Int} (h : parseInt s = some n) :
    -2 ^ 63 ≤ n ∧ n < 2 ^ 63 := by
  unfold parseInt at h
  split at h
  all_goals
    obtain ⟨m, _, bounded⟩ := Option.bind_eq_some_iff.mp h
    obtain ⟨bound, eq⟩ := Option.ite_none_right_eq_some.mp bounded
    cases eq
    omega

/-- `strconv.FormatInt`. -/
def formatInt (i : Int) (base : Nat) : String :=
  let digits := if i = 0 then ['0'] else (Nat.digits base i.natAbs).reverse.map hexDigit
  String.ofList (if i < 0 then '-' :: digits else digits)

theorem formatInt_ne_empty (i : Int) (base : Nat) : formatInt i base ≠ "" := by
  have written :
      (if i = 0 then ['0'] else (Nat.digits base i.natAbs).reverse.map hexDigit) ≠ [] := by
    split
    · nofun
    · next nonzero =>
      have digits :=
        (Nat.digits_ne_nil_iff_ne_zero (b := base)).mpr (Int.natAbs_ne_zero.mpr nonzero)
      simpa using digits
  rw [formatInt, Ne, ← String.toList_inj, String.toList_ofList]
  split
  · nofun
  · exact written

/-- The value of a digit that `hexDigit` wrote. -/
theorem hexDigit_value {d : Nat} (h : d < 10) : (hexDigit d).toNat - 48 = d := by
  have small : hexDigit d = Char.ofNat (48 + d) := if_pos h
  have valid : (48 + d).isValidChar := .inl (by omega)
  rw [small, Char.ofNat, dif_pos valid]
  change 48 + d - 48 = d
  omega

/-- No two numbers are written the same in base ten. -/
theorem formatInt_ten_injective {m n : Nat} (h : formatInt m 10 = formatInt n 10) : m = n := by
  have value (n : Nat) :
      Nat.ofDigits 10 ((formatInt n 10).toList.reverse.map fun c => c.toNat - 48) = n := by
    have unsigned : ¬ (n : Int) < 0 := by omega
    simp only [formatInt, if_neg unsigned, String.toList_ofList]
    by_cases zero : (n : Int) = 0
    · rw [if_pos zero]
      change 48 - 48 + 10 * 0 = n
      omega
    · rw [if_neg zero, ← List.map_reverse, List.reverse_reverse, List.map_map, Int.natAbs_natCast]
      have digits : (Nat.digits 10 n).map ((fun c => c.toNat - 48) ∘ hexDigit) =
          Nat.digits 10 n := by
        refine (List.map_congr_left fun d hd => ?_).trans (List.map_id _)
        exact hexDigit_value (Nat.digits_lt_base (by decide) hd)
      rw [digits, Nat.ofDigits_digits]
  rw [← value m, h, value n]

end OtusApp.Go
