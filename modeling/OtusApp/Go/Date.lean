/-!
# Dates

`Time.UTC().Format("2006-01-02")`: the date of a day in the proleptic Gregorian calendar, counted
from 1 January 1970.
-/

namespace OtusApp.Go

/-- Year, month and day. The year of the computation begins in March, so that the day that some
Februaries lack is the last one. -/
def civil (day : Int) : Int × Nat × Nat :=
  let z := day + 719468
  let era := z / 146097
  let ofEra := (z % 146097).toNat
  let yearOfEra := (ofEra - ofEra / 1460 + ofEra / 36524 - ofEra / 146096) / 365
  let ofYear := ofEra - (365 * yearOfEra + yearOfEra / 4 - yearOfEra / 100)
  let fromMarch := (5 * ofYear + 2) / 153
  let month := if fromMarch < 10 then fromMarch + 3 else fromMarch - 9
  (yearOfEra + era * 400 + (if month ≤ 2 then 1 else 0), month,
    ofYear - (153 * fromMarch + 2) / 5 + 1)

/-- Decimal digits, with zeros in front up to a width. -/
def pad (width n : Nat) : List Char :=
  let digits := (toString n).toList
  List.replicate (width - digits.length) '0' ++ digits

/-- The date of a day. -/
def formatDate (day : Int) : String :=
  let (year, month, dayOfMonth) := civil day
  String.ofList ((if year < 0 then ['-'] else []) ++ pad 4 year.natAbs ++ ['-'] ++
    pad 2 month ++ ['-'] ++
    pad 2 dayOfMonth)

example : formatDate 0 = "1970-01-01" ∧ formatDate 11016 = "2000-02-29" ∧
    formatDate (-1) = "1969-12-31" := by
  decide

end OtusApp.Go
