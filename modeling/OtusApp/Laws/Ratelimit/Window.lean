import OtusApp.Lib.Rows
import OtusApp.Ratelimit.Middleware

/-!
# The limit within a window

While no call fails, a breaker stays closed and every request is counted. While a counter has not
expired, its counts under one key are 1, 2, 3 and so on, and at most the limit of them are within
the limit (`Numbered.within`). A counter lives for one window from the first script under its key:
this is what the scripts have to keep to.
-/

namespace OtusApp.Ratelimit

open Go Resilience Program Transition

/-- No call fails. -/
def served (c : Choice) : Bool := c.fate = .ok

/-- The scripts under a key. -/
def under (key : String) (hits : List Hit) : List Hit := hits.filter fun h => h.key = key

/-- A script that runs now is less than a window behind every earlier one under its key. -/
def timely (window : Duration) (s : Env) : Effect → Bool
  | .hit key _ _ => (under key s.hits).all fun h => s.clock < h.time + window
  | _ => true

/-- The limiters while no call fails. -/
def serving (cfg : Config) : System State (Move Incoming Choice Nat) :=
  ((machine cfg).only fun _ _ _ c => served c).system Fresh

/-- The limiters while no call fails and every script is timely. -/
def keepingTime (cfg : Config) : System State (Move Incoming Choice Nat) :=
  ((machine cfg).only fun s _ e c => served c && timely cfg.window s e).system Fresh

/-! ## The counts -/

/-- Every script counted the ones under its key before it. -/
def Numbered : List Hit → Prop
  | [] => True
  | h :: rest => h.count = (under h.key rest).length + 1 ∧ Numbered rest

/-- At most `limit` of the counts under a key are up to `limit`. -/
theorem Numbered.within {hits : List Hit} (h : Numbered hits) (key : String) (limit : Nat) :
    (under key hits).countP (fun h => h.count ≤ limit) ≤ limit := by
  induction hits with
  | nil => exact Nat.zero_le _
  | cons first rest ih =>
    obtain ⟨count, numbered⟩ := h
    by_cases mine : first.key = key
    · rw [under, List.filter_cons_of_pos (by simpa using mine), List.countP_cons]
      subst mine
      split
      · next small =>
        -- a count within the limit leaves room for itself: there are fewer before it
        have few : (under first.key rest).countP (fun h => h.count ≤ limit) ≤
            (under first.key rest).length := List.countP_le_length
        have small : first.count ≤ limit := of_decide_eq_true small
        change (under first.key rest).countP _ + 1 ≤ limit
        omega
      · exact ih numbered
    · rw [under, List.filter_cons_of_neg (by simpa using mine)]
      exact ih numbered

/-- What holds while every script is timely. -/
structure Counted (window : Duration) (s : Env) : Prop where
  closed : ∀ r, (s.breakers r).state = .closed
  numbered : Numbered s.hits
  absent : ∀ key, s.counters key = none → under key s.hits = []
  present : ∀ key c, s.counters key = some c → c.count = (under key s.hits).length ∧
    ∃ h ∈ under key s.hits, c.expires = h.time + window

/-- What such a call is answered. -/
inductive Answered (window : Duration) (s : Env) (caller : Nat × Incoming) :
    (e : Effect) → e.Result → Env → Prop
  | now : Answered window s caller .now s.clock s
  | withTimeout (d : Duration) : Answered window s caller (.withTimeout d) (s.clock + d) s
  | err (deadline : Instant) : Answered window s caller (.err deadline) none s
  | admit_ : Answered window s caller .admit_ ((s.breakers caller.2.replica).admit_ s.clock).2
      (setBreaker s caller.2.replica ((s.breakers caller.2.replica).admit_ s.clock).1)
  | complete (generation : UInt64) (outcome : Outcome) (source : Nat) :
      Answered window s caller (.complete generation outcome) () (setBreaker s caller.2.replica
        ((s.breakers caller.2.replica).complete generation outcome s.clock source))
  | hit (key : String) (w : Duration) (deadline : Instant)
      (intime : ∀ h ∈ under key s.hits, s.clock < h.time + window) :
      Answered window s caller (.hit key w deadline) (.ok (incr s key w).count)
        (hitScript s caller.1 key w)

theorem answered {cfg : Config} {s t : Env} {caller : Nat × Incoming} {e : Effect} {c : Choice}
    {r : e.Result}
    (h : ((machine cfg).only fun s _ e c => served c && timely cfg.window s e).respond s caller e
      c = some (r, t)) :
    Answered cfg.window s caller e r t := by
  obtain ⟨admitted, responds⟩ := Machine.respond_only.mp h
  obtain ⟨fate, source⟩ := c
  obtain ⟨ok, intime⟩ := Bool.and_eq_true_iff.mp admitted
  obtain rfl : fate = .ok := of_decide_eq_true ok
  cases e with
  | now =>
    cases responds
    exact .now
  | withTimeout d =>
    cases responds
    exact .withTimeout d
  | err deadline =>
    cases (Option.ite_none_right_eq_some.mp responds).2
    exact .err deadline
  | admit_ =>
    cases responds
    exact .admit_
  | complete generation outcome =>
    cases responds
    exact .complete generation outcome source
  | hit key w deadline =>
    cases (Option.ite_none_right_eq_some.mp responds).2
    exact .hit key w deadline fun h mem => of_decide_eq_true (List.all_eq_true.mp intime h mem)

/-! ## What a script leaves -/

/-- A window of whole seconds, one at least. -/
def Whole (window : Duration) : Prop := ∃ n : Nat, 1 ≤ n ∧ window = n * Duration.second

theorem Whole.milliseconds {window : Duration} (h : Whole window) :
    window.milliseconds * Duration.millisecond = window := by
  obtain ⟨n, _, rfl⟩ := h
  have split : n * Duration.second = n * 1000 * Duration.millisecond := by
    rw [Int.mul_assoc]
    rfl
  rw [split, Duration.milliseconds, Int.mul_tdiv_cancel _ (by decide)]

/-- The counter of a key, after one more script. -/
theorem Counted.incr {window : Duration} {s : Env} (whole : Whole window) (h : Counted window s)
    {key : String} (intime : ∀ h ∈ under key s.hits, s.clock < h.time + window) :
    (incr s key window).count = (under key s.hits).length + 1 ∧
      ((incr s key window).expires = s.clock + window ∨
        ∃ h ∈ under key s.hits, (incr s key window).expires = h.time + window) := by
  cases found : s.counters key with
  | none =>
    have gone : live s key = none := by rw [live, found, Option.filter_none]
    rw [Ratelimit.incr, gone, h.absent key found, whole.milliseconds]
    exact ⟨rfl, .inl rfl⟩
  | some c =>
    obtain ⟨count, first, mem, expires⟩ := h.present key c found
    have lives : live s key = some c := by
      rw [live, found, Option.filter_some, if_pos (decide_eq_true (expires ▸ intime first mem))]
    rw [Ratelimit.incr, lives]
    exact ⟨congrArg (· + 1) count, .inr ⟨first, mem, expires⟩⟩

theorem under_cons_self (h : Hit) (hits : List Hit) :
    under h.key (h :: hits) = h :: under h.key hits :=
  List.filter_cons_of_pos (by simp)

theorem under_cons_ne {key : String} {h : Hit} (ne : h.key ≠ key) (hits : List Hit) :
    under key (h :: hits) = under key hits :=
  List.filter_cons_of_neg (by simpa using ne)

theorem Counted.hitScript {window : Duration} {s : Env} (whole : Whole window)
    (h : Counted window s) (caller : Nat) {key : String}
    (intime : ∀ h ∈ under key s.hits, s.clock < h.time + window) :
    Counted window (hitScript s caller key window) := by
  obtain ⟨count, expires⟩ := h.incr whole intime
  refine ⟨h.closed, ⟨count, h.numbered⟩, ?_, ?_⟩
  · intro k none
    by_cases mine : k = key
    · simp [Ratelimit.hitScript, mine] at none
    · simp only [Ratelimit.hitScript, mine, if_false] at none ⊢
      rw [under_cons_ne (Ne.symm mine)]
      exact h.absent k none
  · intro k c found
    by_cases mine : k = key
    · subst mine
      simp only [Ratelimit.hitScript, if_true, Option.some.injEq] at found ⊢
      subst found
      rw [under_cons_self ⟨caller, k, s.clock, (Ratelimit.incr s k window).count⟩]
      refine ⟨count, ?_⟩
      rcases expires with fresh | ⟨first, mem, same⟩
      · exact ⟨_, List.mem_cons_self, fresh⟩
      · exact ⟨first, List.mem_cons_of_mem _ mem, same⟩
    · simp only [Ratelimit.hitScript, mine, if_false] at found ⊢
      rw [under_cons_ne (Ne.symm mine)]
      exact h.present k c found

theorem Counted.setBreaker {window : Duration} {s : Env} (h : Counted window s) {replica : Nat}
    {b : Breaker} (closed : b.state = .closed) : Counted window (setBreaker s replica b) := by
  refine ⟨fun r => ?_, h.numbered, h.absent, h.present⟩
  simp only [Ratelimit.setBreaker]
  split
  · exact closed
  · exact h.closed r

/-! ## What a request asks -/

/-- A call that leaves the breaker closed and counts by the limiter's window. -/
def Proper (window : Duration) : Effect → Prop
  | .complete _ outcome => outcome = .success
  | .hit _ w _ => w = window
  | _ => True

theorem Answered.counted {window : Duration} {s t : Env} {caller : Nat × Incoming} {e : Effect}
    {r : e.Result} (answer : Answered window s caller e r t) (whole : Whole window)
    (h : Counted window s) (proper : Proper window e) : Counted window t ∧ s.hits ⊆ t.hits := by
  cases answer with
  | now | withTimeout | err => exact ⟨h, List.Subset.refl _⟩
  | admit_ =>
    rw [Breaker.admit_closed (h.closed _)]
    exact ⟨h.setBreaker (h.closed _), List.Subset.refl _⟩
  | complete generation outcome source =>
    cases proper
    exact ⟨h.setBreaker (Breaker.complete_success_closed (h.closed _) _ _ _), List.Subset.refl _⟩
  | hit key w deadline intime =>
    cases proper
    exact ⟨h.hitScript whole _ intime, List.subset_cons_self _ _⟩

/-- A request that goes on was counted within the limit. -/
def Justified (cfg : Config) (i : Nat) (v : Verdict) (s : Env) : Prop :=
  v.passed = true → ∃ h ∈ s.hits, h.caller = i ∧ h.key = v.key ∧ (h.count : Int) ≤ cfg.limit

/-- The limiters with timely scripts, as a machine. -/
abbrev timed (cfg : Config) : Machine Incoming Effect Effect.Result Verdict Env Choice Nat :=
  (machine cfg).only fun s _ e c => served c && timely cfg.window s e

/-- The code of a request, against the scripts of the others. -/
theorem middleware_guards (cfg : Config) (i : Nat) (q : Incoming) (s : Env) :
    (middleware cfg q.request).Guards (fun s t => s.hits ⊆ t.hits)
      ((timed cfg).answersIn (Counted cfg.window) (i, q)) (fun _ => Proper cfg.window)
      (Justified cfg i) s := by
  intro s₀ _
  refine ⟨trivial, ?_⟩
  intro now s₁ _ s₂ _
  refine ⟨trivial, ?_⟩
  intro deadline s₃ _ s₄ _
  refine ⟨trivial, ?_⟩
  rintro err s₅ ⟨_, _, responds⟩
  cases answered responds
  intro s₆ _
  refine ⟨trivial, ?_⟩
  rintro generation s₇ ⟨counted, _, responds⟩
  -- the breaker is closed, so the call is admitted
  cases answered responds
  rw [Breaker.admit_closed (counted.closed _)]
  intro s₈ _
  refine ⟨rfl, ?_⟩
  rintro count s₉ ⟨_, _, responds⟩
  cases answered responds
  intro s₁₀ grown
  refine ⟨rfl, ?_⟩
  rintro done s₁₁ ⟨_, _, responds⟩ passed
  cases answered responds
  exact ⟨_, grown List.mem_cons_self, rfl, rfl, Int.not_lt.mp (of_decide_eq_true passed)⟩

/-- Every request that has gone on was counted within the limit. -/
theorem justified {cfg : Config} (whole : Whole cfg.window) {w : State}
    (h : (keepingTime cfg).Reachable w) : Counted cfg.window w.env ∧
      ∀ (i : Nat) q v, w.procs[i]? = some (q, .ret v) → Justified cfg i v w.env := by
  have kept := Machine.guards (m := timed cfg) (Counted cfg.window) (fun s t => s.hits ⊆ t.hits)
    (fun _ _ => Proper cfg.window) (fun caller => Justified cfg caller.1)
    (fun _ => List.Subset.refl _) (fun _ _ _ => List.Subset.trans) ?stable ?start ?arrives
      ?answers ?moves
    (fun i q s t _ taken => by
      cases taken
      exact middleware_guards cfg i q s) h
  case stable =>
    intro caller v s t post grown passed
    obtain ⟨hit, mem, rest⟩ := post passed
    exact ⟨hit, grown mem, rest⟩
  case start =>
    rintro s ⟨counters, breakers, hits⟩
    refine ⟨fun r => by rw [breakers]; rfl, by rw [hits]; trivial,
      fun key _ => by rw [hits]; rfl, ?_⟩
    intro key c found
    rw [counters] at found
    cases found
  case arrives =>
    intro s q t counted taken
    cases taken
    exact ⟨counted, List.Subset.refl _⟩
  case answers =>
    intro s caller e c r t counted proper responds
    exact (answered responds).counted whole counted proper
  case moves =>
    intro s b t counted moved
    cases moved
    exact ⟨⟨counted.closed, counted.numbered, counted.absent, counted.present⟩, List.Subset.refl _⟩
  exact ⟨kept.1, fun i q v runs => kept.2 i q (.ret v) runs⟩

/-- **The limit of a window.** While no call fails and every script runs less than a window after
the first one under its key, no more requests than the limit go on under one key. -/
theorem window_limit {cfg : Config} (positive : 0 < cfg.limit) (whole : Whole cfg.window)
    {w : State} (h : (keepingTime cfg).Reachable w) (key : String) :
    (passes w key : Int) ≤ cfg.limit := by
  obtain ⟨counted, verdicts⟩ := justified whole h
  obtain ⟨limit, same⟩ : ∃ limit : Nat, cfg.limit = limit := Int.eq_ofNat_of_zero_le (by omega)
  have few := counted.numbered.within key limit
  have positions : passes w key ≤
      (((under key w.env.hits).filter fun h => h.count ≤ limit).map Hit.caller).length := by
    apply Rows.countP_le_positions
    rintro i ⟨q, p⟩ runs passed
    cases p with
    | call e k => cases passed
    | ret v =>
      obtain ⟨went, rfl⟩ : v.passed = true ∧ v.key = key := by simpa [passedUnder] using passed
      obtain ⟨hit, mem, rfl, mine, within⟩ := verdicts i q v runs went
      rw [same] at within
      refine List.mem_map_of_mem (List.mem_filter.mpr ⟨List.mem_filter.mpr ⟨mem, ?_⟩, ?_⟩)
      · exact decide_eq_true mine
      · exact decide_eq_true (Int.ofNat_le.mp within)
  rw [List.length_map, ← List.countP_eq_length_filter] at positions
  omega

/-- A limit of one request a minute. -/
def oneAMinute : Config := ⟨1, 60 * Duration.second⟩

/-- Before the first request, at a moment of the clock. -/
def startedAt (clock : Instant) : State := ⟨⟨clock, fun _ => none, fun _ => .new, []⟩, [], []⟩

/-- A request that comes to one of the replicas by itself. -/
def direct (replica : Nat) : Incoming :=
  ⟨replica, "GET", "/messages", Header.empty, [], "10.0.0.1:5000"⟩

/-- The next calls of a request, none of which fails. -/
def calls (i n : Nat) : List (Move Incoming Choice Nat) := List.replicate n (.go i ⟨.ok, 0⟩)

/-- Two requests of one client in one minute: the second one is refused. -/
theorem window_limit_refused : ∃ w, (keepingTime oneAMinute).Reachable w ∧
    w.env.hits.length = 2 ∧ passes w "rl:10.0.0.1:0" ≤ 1 := by
  have replayed : ∃ w, System.replay (timed oneAMinute).step (startedAt 0)
      (.arrive (direct 0) :: .arrive (direct 1) :: calls 0 6 ++ calls 1 6) = some w ∧
      w.env.hits.length = 2 := ⟨_, rfl, rfl⟩
  obtain ⟨w, run, hits⟩ := replayed
  have reached : (keepingTime oneAMinute).Reachable w :=
    ⟨_, ⟨⟨rfl, rfl, rfl⟩, rfl, rfl⟩, System.Runs.of_replay run⟩
  have positive : 0 < oneAMinute.limit := by decide
  have limit := window_limit positive ⟨60, by decide, rfl⟩ reached "rl:10.0.0.1:0"
  exact ⟨w, reached, hits, Int.ofNat_le.mp limit⟩

/-- A request computes its key in the last tenth of a minute, and its script runs when the counter
of that minute has expired: it is counted as the first one. -/
theorem window_limit_exceeded : ∃ w, (serving oneAMinute).Reachable w ∧
    oneAMinute.limit < passes w "rl:10.0.0.1:0" := by
  have replayed :
    ∃ w, System.replay ((machine oneAMinute).only fun _ _ _ c => served c).step (startedAt 0)
      (.arrive (direct 0) :: calls 0 6 ++ .background 59900000000 ::
        .arrive (direct 1) :: calls 1 4 ++
        .background 100000000 :: calls 1 2) = some w ∧
      passes w "rl:10.0.0.1:0" = 2 := ⟨_, rfl, by decide⟩
  obtain ⟨w, run, twice⟩ := replayed
  refine ⟨w, ⟨_, ⟨⟨rfl, rfl, rfl⟩, rfl, rfl⟩, System.Runs.of_replay run⟩, ?_⟩
  rw [twice]
  decide

end OtusApp.Ratelimit
