import OtusApp.Go.Duration
import OtusApp.Go.Int64

/-!
# Delays between attempts

`Jitter` doubles a base delay per attempt up to a limit, and draws from its upper half.
-/

namespace OtusApp.Resilience

open Go

/-- The loop of `Jitter`: `turns` doublings at most, and none past the limit. -/
def grow (limit : Duration) : Nat → Duration → Duration
  | 0, delay => delay
  | turns + 1, delay =>
    if delay < limit then
      if delay > Int.tdiv limit 2 then limit else grow limit turns (wrap64 (delay * 2))
    else delay

/-- `Jitter`, under a draw from `source`. -/
def jitter (attempt : Int) (base limit : Duration) (source : Nat) : Option Duration :=
  let base := max base 1
  let limit := max limit base
  let delay := grow limit (attempt - 1).toNat base
  let half := Int.tdiv delay 2
  (int64N (wrap64 (delay - half)) source).map fun draw => wrap64 (half + draw)

/-- `Backoff`. -/
def backoff (attempt : Int) (source : Nat) : Option Duration :=
  jitter attempt Duration.second (30 * Duration.second) source

end OtusApp.Resilience
