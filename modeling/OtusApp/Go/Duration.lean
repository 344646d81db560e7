/-!
# Time

`time.Duration`, a count of nanoseconds, and the readings of a clock.
-/

namespace OtusApp.Go

/-- `time.Duration`, in nanoseconds. -/
abbrev Duration := Int

namespace Duration

def millisecond : Duration := 1000000

def second : Duration := 1000000000

/-- `Duration.Milliseconds`: whole milliseconds, rounded towards zero. -/
def milliseconds (d : Duration) : Int := Int.tdiv d millisecond

/-- `int64(d.Seconds())`, of a duration of whole seconds. -/
def seconds (d : Duration) : Int := Int.tdiv d second

end Duration

/-- A reading of the clock, in nanoseconds. -/
abbrev Instant := Int

/-- `Time.Unix`: the whole seconds of a reading, rounded down. -/
def Instant.unix (t : Instant) : Int := t / Duration.second

/-- The readings a `time.Time` can hold: its seconds are an `int64`, counted from the year 1. -/
def Instant.InRange (t : Instant) : Prop :=
  -9223372036854775808 ≤ t.unix + 62135596800 ∧ t.unix + 62135596800 ≤ 9223372036854775807

instance : DecidablePred Instant.InRange := fun _ => inferInstanceAs (Decidable (_ ∧ _))

end OtusApp.Go
