import OtusApp.Lib.Rows
import OtusApp.Laws.Resilience.Retry
import OtusApp.Resilience.Breaker

/-!
# The circuit breaker under concurrent calls

The generation tells the calls of the current period from those of earlier ones, as long as it has
not wrapped. `Regular` says what each state then means: in a closed circuit the counter is the run
of errors that ends the answers of this period; in an open one no call of this period is in flight;
in a half-open one the flag says whether a probe is.

Past 2^64 transitions the meaning is lost: an old call can carry the current generation again.
-/

namespace OtusApp.Resilience

open Go Transition

/-! ## One critical section -/

/-- What `admit` does. -/
inductive Entered (s : Traffic) (now : Instant) : Traffic → Prop
  | refused (waiting : s.breaker.state = .open_ ∧ now < s.breaker.until_ ∨
      s.breaker.state = .halfOpen ∧ s.breaker.probe = true) : Entered s now s
  | passed (closed : s.breaker.state = .closed) : Entered s now
      { s with flights := ⟨s.breaker.generation, s.transitions, false⟩ :: s.flights }
  | probing (halfOpen : s.breaker.state = .halfOpen)
      (free : s.breaker.probe = false) : Entered s now
      { s with
        breaker := { s.breaker with probe := true }
        flights := ⟨s.breaker.generation, s.transitions, true⟩ :: s.flights }
  | reopened (opened : s.breaker.state = .open_) (due : s.breaker.until_ ≤ now)
      (free : s.breaker.probe = false) : Entered s now
      ⟨{ s.breaker with
          state := .halfOpen, generation := s.breaker.generation + 1, probe := true },
        ⟨s.breaker.generation + 1, s.transitions + 1, true⟩ :: s.flights, s.transitions + 1, []⟩
  | blocked (opened : s.breaker.state = .open_) (stuck : s.breaker.probe = true) : Entered s now
      ⟨{ s.breaker with state := .halfOpen, generation := s.breaker.generation + 1 },
        s.flights, s.transitions + 1, []⟩

theorem entered (s : Traffic) (now : Instant) : Entered s now (s.admit_ now) := by
  obtain ⟨⟨state, failures, generation, probe, deadline⟩, flights, transitions, answers⟩ := s
  cases state with
  | closed =>
    simp only [Traffic.admit_, Breaker.admit_, Traffic.move, reduceCtorEq, false_and,
      if_false, if_true]
    exact .passed rfl
  | halfOpen =>
    cases probe with
    | true =>
      simp only [Traffic.admit_, Breaker.admit_, Traffic.move, reduceCtorEq, false_and,
        if_false, if_true]
      exact .refused (.inr ⟨rfl, rfl⟩)
    | false =>
      simp only [Traffic.admit_, Breaker.admit_, Traffic.move, reduceCtorEq, false_and,
        if_false, if_true,
        Bool.false_eq_true]
      exact .probing rfl rfl
  | open_ =>
    by_cases early : now < deadline
    · simp only [Traffic.admit_, Breaker.admit_, Traffic.move, early, and_self, if_true]
      exact .refused (.inl ⟨rfl, early⟩)
    · have due : deadline ≤ now := Int.not_lt.mp early
      have moved : generation + 1 ≠ generation := by simp
      cases probe with
      | true =>
        simp only [Traffic.admit_, Breaker.admit_, Traffic.move, Breaker.transition,
          early, and_false,
          if_false, if_true, moved]
        exact .blocked rfl rfl
      | false =>
        simp only [Traffic.admit_, Breaker.admit_, Traffic.move, Breaker.transition,
          early, and_false,
          if_false, if_true, moved, Bool.false_eq_true]
        exact .reopened rfl due rfl

theorem jitter_ten (source : Nat) :
    ∃ delay, jitter 1 (10 * Duration.second) (10 * Duration.second) source = some delay ∧
      5 * Duration.second ≤ delay ∧ delay < 10 * Duration.second := by
  have fits : Fits64 (10 * Duration.second) := ⟨by decide, by decide⟩
  obtain ⟨_, draw, _, _, drawn, least, most⟩ := jitter_draws 1 fits fits source
  exact ⟨_, drawn, least, most⟩

theorem trip_eq (b : Breaker) (now : Instant) (source : Nat) :
    ∃ deadline, b.trip now source = { b with until_ := deadline }.transition .open_ := by
  obtain ⟨delay, drawn, _⟩ := jitter_ten source
  exact ⟨now + delay, by simp only [Breaker.trip, drawn]⟩

/-- A circuit that a completion opens is open for five to ten seconds. -/
theorem complete_until {b : Breaker} {generation : UInt64} {outcome : Outcome} {now : Instant}
    {source : Nat} (before : b.state ≠ .open_)
    (after : (b.complete generation outcome now source).state = .open_) :
    now + 5 * Duration.second ≤ (b.complete generation outcome now source).until_ ∧
      (b.complete generation outcome now source).until_ < now + 10 * Duration.second := by
  obtain ⟨delay, drawn, least, most⟩ := jitter_ten source
  simp only [Breaker.complete] at after ⊢
  by_cases old : generation ≠ b.generation
  · rw [if_pos old] at after
    exact absurd after before
  · rw [if_neg old] at after ⊢
    cases outcome with
    | canceled => exact absurd after before
    | success =>
      simp only at after
      split at after
      · cases after
      · exact absurd after before
    | error =>
      simp only at after ⊢
      split at after
      · next due =>
        rw [if_pos due]
        simp only [Breaker.trip, drawn, Breaker.transition]
        exact ⟨Int.add_le_add_left least now, Int.add_lt_add_left most now⟩
      · exact absurd after before

theorem complete_breaker (s : Traffic) (c : Flight) (i : Nat) (outcome : Outcome) (now : Instant)
    (source : Nat) :
    (s.complete c i outcome now source).breaker = s.breaker.complete c.generation outcome
      now source := by
  simp only [Traffic.complete, Traffic.move]
  split <;> rfl

/-- What `complete` does for a call of the current generation and period. -/
inductive Left (s : Traffic) (i : Nat) : Outcome → Traffic → Prop
  | canceled : Left s i .canceled
      { s with breaker := { s.breaker with probe := false }, flights := s.flights.eraseIdx i }
  | succeeded (running : s.breaker.state ≠ .halfOpen) : Left s i .success
      { s with
        breaker := { s.breaker with probe := false, failures := 0 }
        flights := s.flights.eraseIdx i
        answers := .success :: s.answers }
  | recovered (probing : s.breaker.state = .halfOpen) : Left s i .success
      ⟨{ s.breaker with
          state := .closed, generation := s.breaker.generation + 1, probe := false, failures := 0 },
        s.flights.eraseIdx i, s.transitions + 1, []⟩
  | counted (running : s.breaker.state ≠ .halfOpen) (few : wrap64 (s.breaker.failures + 1) < 3) :
      Left s i .error { s with
        breaker := { s.breaker with probe := false, failures := wrap64 (s.breaker.failures + 1) }
        flights := s.flights.eraseIdx i
        answers := .error :: s.answers }
  | tripped (deadline : Instant)
      (due : s.breaker.state = .halfOpen ∨ 3 ≤ wrap64 (s.breaker.failures + 1)) : Left s i .error
      ⟨⟨.open_, wrap64 (s.breaker.failures + 1), s.breaker.generation + 1, false, deadline⟩,
        s.flights.eraseIdx i, s.transitions + 1, []⟩

theorem left {s : Traffic} {c : Flight} (same : c.generation = s.breaker.generation)
    (current : c.period = s.transitions) (i : Nat) (outcome : Outcome) (now : Instant)
    (source : Nat) : Left s i outcome (s.complete c i outcome now source) := by
  have moved : s.breaker.generation + 1 ≠ s.breaker.generation := by simp
  cases outcome with
  | canceled =>
    simp only [Traffic.complete, Breaker.complete, Traffic.move, same, current, ne_eq,
      not_true_eq_false, and_false, if_false, if_true]
    exact .canceled
  | success =>
    simp only [Traffic.complete, Breaker.complete, same, current, ne_eq,
      not_true_eq_false, if_false,
      reduceCtorEq, not_false_eq_true, and_self, if_true]
    by_cases probing : s.breaker.state = .halfOpen
    · simp only [probing, if_true, Traffic.move, Breaker.transition, moved, if_false]
      exact .recovered probing
    · simp only [probing, if_false, Traffic.move, if_true]
      exact .succeeded probing
  | error =>
    simp only [Traffic.complete, Breaker.complete, same, current, ne_eq,
      not_true_eq_false, if_false,
      reduceCtorEq, not_false_eq_true, and_self, if_true]
    by_cases due : s.breaker.state = .halfOpen ∨ wrap64 (s.breaker.failures + 1) ≥ 3
    · obtain ⟨deadline, eq⟩ := trip_eq
        { s.breaker with probe := false, failures := wrap64 (s.breaker.failures + 1) } now source
      simp only [due, if_true, eq, Traffic.move, Breaker.transition, moved, if_false]
      exact .tripped deadline due
    · simp only [due, if_false, Traffic.move, if_true]
      obtain ⟨running, few⟩ := not_or.mp due
      exact .counted running (by omega)

/-- The completion of a call of an earlier generation and period only takes it out of flight. -/
theorem left_earlier {s : Traffic} {c : Flight} (old : c.generation ≠ s.breaker.generation)
    (earlier : c.period ≠ s.transitions) (i : Nat) (outcome : Outcome) (now : Instant)
    (source : Nat) :
    s.complete c i outcome now source = { s with flights := s.flights.eraseIdx i } := by
  simp only [Traffic.complete, Breaker.complete, old, earlier, ne_eq, not_false_eq_true, if_true,
    false_and, if_false, Traffic.move]

/-! ## What each state means -/

/-- The run of errors at the head of the answers. -/
def streak (answers : List Outcome) : Nat := (answers.takeWhile (· = .error)).length

@[simp] theorem streak_nil : streak [] = 0 := rfl

@[simp] theorem streak_success (answers : List Outcome) : streak (.success :: answers) = 0 := rfl

@[simp] theorem streak_error (answers : List Outcome) :
    streak (.error :: answers) = streak answers + 1 := rfl

/-- Two errors end the answers when the run of errors has that length. -/
theorem take_two_iff {answers : List Outcome} (few : streak answers < 3) :
    answers.take 2 = [.error, .error] ↔ streak answers = 2 := by
  match answers with
  | [] => simp
  | [a] => cases a <;> simp [streak]
  | .success :: _ :: _ => simp
  | .canceled :: _ :: _ => simp [streak]
  | .error :: .success :: _ => simp
  | .error :: .canceled :: _ => simp [streak]
  | .error :: .error :: rest =>
    simp only [streak_error] at few
    simp only [List.take_succ_cons, List.take_zero, streak_error, true_iff]
    omega

/-- How many calls of the current period are in flight. -/
def Traffic.pending (s : Traffic) : Nat := s.flights.countP (·.period = s.transitions)

/-- What the state says about the calls of the current period. -/
def Traffic.Means (s : Traffic) : Prop :=
  match s.breaker.state with
  | .closed =>
    s.breaker.probe = false ∧ s.breaker.failures = streak s.answers ∧ streak s.answers < 3
  | .open_ => s.breaker.probe = false ∧ s.pending = 0
  | .halfOpen => s.pending = if s.breaker.probe then 1 else 0

/-- The generation counts the transitions, the calls in flight carry that of their period, the
probes are the calls of a half-open period, and the state means what it should. -/
structure Regular (s : Traffic) : Prop where
  generation : s.breaker.generation = UInt64.ofNat s.transitions
  flights : ∀ c ∈ s.flights, c.generation = UInt64.ofNat c.period ∧ c.period ≤ s.transitions
  probes : ∀ c ∈ s.flights,
    c.probe = true ↔ c.period = s.transitions ∧ s.breaker.state = .halfOpen
  means : s.Means

theorem ofNat_inj {m n : Nat} (hm : m < 2 ^ 64) (hn : n < 2 ^ 64)
    (h : UInt64.ofNat m = UInt64.ofNat n) : m = n := by
  have same := congrArg UInt64.toNat h
  rwa [UInt64.toNat_ofNat_of_lt' hm, UInt64.toNat_ofNat_of_lt' hn] at same

theorem ofNat_succ (n : Nat) : UInt64.ofNat n + 1 = UInt64.ofNat (n + 1) := by
  simp

namespace Regular

variable {s : Traffic}

/-- Before the generation wraps, it singles out the calls of the current period. -/
theorem current (h : Regular s) (few : s.transitions < 2 ^ 64) {c : Flight} (hc : c ∈ s.flights) :
    c.generation = s.breaker.generation ↔ c.period = s.transitions := by
  obtain ⟨carries, bound⟩ := h.flights c hc
  rw [carries, h.generation]
  refine ⟨fun same => ofNat_inj (by omega) few same, fun same => by rw [same]⟩

/-- No call in flight belongs to a period that has not begun. -/
theorem none_ahead (h : Regular s) : s.flights.countP (·.period = s.transitions + 1) = 0 := by
  refine List.countP_eq_zero.mpr fun c hc => ?_
  have bound := (h.flights c hc).2
  simp only [decide_eq_true_eq]
  omega

/-- The calls in flight after a transition. -/
theorem flights_next (h : Regular s) {c : Flight} (hc : c ∈ s.flights) :
    c.generation = UInt64.ofNat c.period ∧ c.period ≤ s.transitions + 1 := by
  obtain ⟨carries, bound⟩ := h.flights c hc
  exact ⟨carries, by omega⟩

/-- A transition that leaves no probe behind makes no call of an earlier period one. -/
theorem probes_next (h : Regular s) {c : Flight} (hc : c ∈ s.flights) (plain : ¬ c.probe = true)
    (P : Prop) : c.probe = true ↔ c.period = s.transitions + 1 ∧ P := by
  have bound := (h.flights c hc).2
  exact ⟨fun probe => absurd probe plain, fun ahead => by omega⟩

/-- The flag is down in an open circuit. -/
theorem probe_open (h : Regular s) (opened : s.breaker.state = .open_) :
    s.breaker.probe = false := by
  have means := h.means
  simp only [Traffic.Means, opened] at means
  exact means.1

theorem generation_next (h : Regular s) :
    s.breaker.generation + 1 = UInt64.ofNat (s.transitions + 1) := by
  rw [h.generation, ofNat_succ]

theorem admit_ (h : Regular s) (now : Instant) : Regular (s.admit_ now) := by
  have means := h.means
  have done := entered s now
  generalize s.admit_ now = t at done ⊢
  cases done with
  | refused => exact h
  | passed closed =>
    refine ⟨h.generation, ?_, ?_, ?_⟩
    · exact List.forall_mem_cons.mpr ⟨⟨h.generation, le_rfl⟩, h.flights⟩
    · exact List.forall_mem_cons.mpr ⟨by simp [closed], h.probes⟩
    · simpa only [Traffic.Means, closed] using means
  | probing halfOpen free =>
    simp only [Traffic.Means, halfOpen, free, Bool.false_eq_true, if_false,
      Traffic.pending] at means
    refine ⟨h.generation, ?_, ?_, ?_⟩
    · exact List.forall_mem_cons.mpr ⟨⟨h.generation, le_rfl⟩, h.flights⟩
    · exact List.forall_mem_cons.mpr ⟨by simp [halfOpen], h.probes⟩
    · simp [Traffic.Means, Traffic.pending, halfOpen, means]
  | reopened opened due free =>
    have plain : ∀ c ∈ s.flights, ¬ c.probe = true := by
      intro c hc probe
      have halfOpen := ((h.probes c hc).mp probe).2
      rw [opened] at halfOpen
      cases halfOpen
    refine ⟨h.generation_next, ?_, ?_, ?_⟩
    · exact List.forall_mem_cons.mpr ⟨⟨h.generation_next, le_rfl⟩, fun c hc => h.flights_next hc⟩
    · exact List.forall_mem_cons.mpr ⟨by simp, fun c hc => h.probes_next hc (plain c hc) _⟩
    · simp [Traffic.Means, Traffic.pending, h.none_ahead]
  | blocked opened stuck =>
    rw [h.probe_open opened] at stuck
    cases stuck

end Regular

/-- One call leaves the flight. -/
theorem countP_eraseIdx {flights : List Flight} {i : Nat} {c : Flight} (hc : flights[i]? = some c)
    (p : Flight → Bool) (hp : p c = true) :
    (flights.eraseIdx i).countP p + 1 = flights.countP p := by
  obtain ⟨before, after, split, length, _⟩ := Rows.split_at hc
  subst split length
  rw [List.eraseIdx_append_of_length_le le_rfl]
  simp [hp]
  omega

/-- The calls of earlier periods do not count. -/
theorem countP_eraseIdx_other {flights : List Flight} {i : Nat} {c : Flight}
    (hc : flights[i]? = some c) (p : Flight → Bool) (hp : p c = false) :
    (flights.eraseIdx i).countP p = flights.countP p := by
  obtain ⟨before, after, split, length, _⟩ := Rows.split_at hc
  subst split length
  rw [List.eraseIdx_append_of_length_le le_rfl]
  simp [hp]

namespace Regular

variable {s : Traffic} {i : Nat} {c : Flight}

/-- With a call of the current period in flight the circuit is not open, and half open only with the
probe out. -/
theorem state_of_current (h : Regular s) (hc : c ∈ s.flights) (current : c.period = s.transitions) :
    s.breaker.state = .closed ∨
      s.breaker.state = .halfOpen ∧ s.breaker.probe = true ∧ s.pending = 1 := by
  have some : 0 < s.pending := List.countP_pos_iff.mpr ⟨c, hc, decide_eq_true current⟩
  have means := h.means
  cases state : s.breaker.state with
  | closed => exact .inl rfl
  | open_ =>
    simp only [Traffic.Means, state] at means
    omega
  | halfOpen =>
    simp only [Traffic.Means, state] at means
    cases probe : s.breaker.probe with
    | true => exact .inr ⟨rfl, rfl, by simpa only [probe, if_true] using means⟩
    | false =>
      simp only [probe, Bool.false_eq_true, if_false] at means
      omega

/-- In a closed circuit the counter is the run of errors that ends the answers. -/
theorem failures (h : Regular s) (closed : s.breaker.state = .closed) :
    s.breaker.probe = false ∧ s.breaker.failures = streak s.answers ∧ streak s.answers < 3 := by
  have means := h.means
  simpa only [Traffic.Means, closed] using means

/-- The counter does not wrap while the circuit is closed. -/
theorem failures_next (h : Regular s) (closed : s.breaker.state = .closed) :
    wrap64 (s.breaker.failures + 1) = streak s.answers + 1 := by
  obtain ⟨_, counts, few⟩ := h.failures closed
  rw [counts, wrap64, Int.bmod_def]
  omega

/-- A call of the current period takes the last probe with it. -/
theorem last_probe (h : Regular s) (hc : s.flights[i]? = some c)
    (current : c.period = s.transitions) :
    ∀ d ∈ s.flights.eraseIdx i, ¬ d.probe = true := by
  intro d hd probe
  have leaves : (s.flights.eraseIdx i).countP (·.period = s.transitions) + 1 = s.pending :=
    countP_eraseIdx hc _ (decide_eq_true current)
  obtain ⟨still, halfOpen⟩ := (h.probes d (List.mem_of_mem_eraseIdx hd)).mp probe
  have more : 0 < (s.flights.eraseIdx i).countP (·.period = s.transitions) :=
    List.countP_pos_iff.mpr ⟨d, hd, decide_eq_true still⟩
  rcases h.state_of_current (List.mem_of_getElem? hc) current with closed | ⟨_, _, one⟩
  · rw [closed] at halfOpen
    cases halfOpen
  · omega

theorem complete (h : Regular s) (few : s.transitions < 2 ^ 64) (hc : s.flights[i]? = some c)
    (outcome : Outcome) (now : Instant) (source : Nat) :
    Regular (s.complete c i outcome now source) := by
  have mem : c ∈ s.flights := List.mem_of_getElem? hc
  have kept : ∀ d ∈ s.flights.eraseIdx i, d ∈ s.flights := fun d hd => List.mem_of_mem_eraseIdx hd
  by_cases current : c.period = s.transitions
  · have same : c.generation = s.breaker.generation := (h.current few mem).mpr current
    have leaves : (s.flights.eraseIdx i).countP (·.period = s.transitions) + 1 = s.pending :=
      countP_eraseIdx hc _ (decide_eq_true current)
    have state := h.state_of_current mem current
    have last := h.last_probe hc current
    have done := left same current i outcome now source
    generalize s.complete c i outcome now source = t at done ⊢
    cases done with
    | canceled =>
      refine ⟨h.generation, fun d hd => h.flights d (kept d hd),
        fun d hd => h.probes d (kept d hd), ?_⟩
      rcases state with closed | ⟨halfOpen, _, one⟩
      · simpa only [Traffic.Means, closed, true_and] using (h.failures closed).2
      · simp only [Traffic.Means, halfOpen, Traffic.pending, Bool.false_eq_true, if_false]
        omega
    | succeeded running =>
      have closed := state.resolve_right fun probing => running probing.1
      refine ⟨h.generation, fun d hd => h.flights d (kept d hd),
        fun d hd => h.probes d (kept d hd), ?_⟩
      simp [Traffic.Means, closed]
    | recovered probing =>
      refine ⟨h.generation_next, fun d hd => h.flights_next (kept d hd),
        fun d hd => h.probes_next (kept d hd) (last d hd) _, ?_⟩
      simp [Traffic.Means]
    | counted running below =>
      have closed := state.resolve_right fun probing => running probing.1
      rw [h.failures_next closed] at below ⊢
      refine ⟨h.generation, fun d hd => h.flights d (kept d hd),
        fun d hd => h.probes d (kept d hd), ?_⟩
      simp only [Traffic.Means, closed, streak_error, true_and]
      omega
    | tripped deadline due =>
      refine ⟨h.generation_next, fun d hd => h.flights_next (kept d hd),
        fun d hd => h.probes_next (kept d hd) (last d hd) _, ?_⟩
      refine ⟨rfl, List.countP_eq_zero.mpr fun d hd => ?_⟩
      exact List.countP_eq_zero.mp h.none_ahead d (kept d hd)
  · have old : c.generation ≠ s.breaker.generation := fun same =>
      current ((h.current few mem).mp same)
    have stays : (s.flights.eraseIdx i).countP (·.period = s.transitions) = s.pending :=
      countP_eraseIdx_other hc _ (decide_eq_false current)
    have means := h.means
    rw [left_earlier old current]
    refine ⟨h.generation, fun d hd => h.flights d (kept d hd),
      fun d hd => h.probes d (kept d hd), ?_⟩
    simpa only [Traffic.Means, Traffic.pending, stays] using means

end Regular

/-! ## Whole runs -/

theorem move_transitions (s : Traffic) (b : Breaker) (answers : List Outcome) :
    s.transitions ≤ (s.move b answers).transitions := by
  unfold Traffic.move
  split
  · exact le_rfl
  · exact Nat.le_succ _

/-- The two critical sections. -/
theorem traffic_step {s t : Traffic} {e : Section} (h : traffic.step s e t) :
    (∃ now, e = .admit_ now ∧ t = s.admit_ now) ∨
    ∃ i outcome now source c, e = .complete i outcome now source ∧ s.flights[i]? = some c ∧
      t = s.complete c i outcome now source := by
  cases e with
  | admit_ now => exact .inl ⟨now, rfl, (Option.some.inj h).symm⟩
  | complete i outcome now source =>
    simp only [traffic, System.ofStep, Traffic.step] at h
    split at h
    · cases h
    · exact .inr ⟨i, outcome, now, source, _, rfl, ‹_›, (Option.some.inj h).symm⟩

theorem transitions_le {s t : Traffic} {e : Section} (h : traffic.step s e t) :
    s.transitions ≤ t.transitions := by
  obtain ⟨now, rfl, rfl⟩ | ⟨i, outcome, now, source, c, rfl, hc, rfl⟩ := traffic_step h
  · unfold Traffic.admit_
    dsimp only
    split <;> exact move_transitions s _ _
  · exact move_transitions { s with flights := s.flights.eraseIdx i } _ _

/-- A step under the clock. -/
theorem clocked_step {s t : Clocked} {e : Section} (h : clocked.step s e t) :
    s.clock ≤ e.now ∧ t.clock = e.now ∧ traffic.step s.traffic e t.traffic := by
  simp only [clocked, System.ofStep, Clocked.step, Option.ite_none_right_eq_some] at h
  obtain ⟨later, moved⟩ := h
  obtain ⟨next, step, rfl⟩ := Option.map_eq_some_iff.mp moved
  exact ⟨later, rfl, step⟩

theorem clocked_of_step {s : Clocked} {e : Section} {t : Traffic} (later : s.clock ≤ e.now)
    (h : s.traffic.step e = some t) : clocked.step s e ⟨t, e.now⟩ := by
  simp only [clocked, System.ofStep, Clocked.step, later, if_true, h, Option.map_some]

/-- The clock is one of those the breaker admits. -/
theorem clocked_traffic {s : Clocked} (h : clocked.Reachable s) : traffic.Reachable s.traffic := by
  have sim : System.Simulates clocked traffic Clocked.traffic :=
    ⟨fun _ start => start, fun _ _ _ _ step => .single (clocked_step step).2.2⟩
  exact sim.reachable h

/-- **Regularity.** Until the generation wraps, every reachable state is regular. -/
theorem regular {s : Traffic} (h : traffic.Reachable s) (few : s.transitions < 2 ^ 64) :
    Regular s := by
  refine h.invariant (I := fun s => s.transitions < 2 ^ 64 → Regular s) ?_ ?_ few
  · rintro s rfl _
    exact ⟨rfl, by simp [quiet], by simp [quiet], rfl, rfl, by decide⟩
  · intro s e t _ ih step fewer
    have few : s.transitions < 2 ^ 64 := lt_of_le_of_lt (transitions_le step) fewer
    obtain ⟨now, rfl, rfl⟩ | ⟨i, outcome, now, source, c, rfl, hc, rfl⟩ := traffic_step step
    · exact (ih few).admit_ now
    · exact (ih few).complete few hc outcome now source

/-! ## The probe -/

/-- The calls of the current generation. -/
theorem Regular.pending_eq {s : Traffic} (h : Regular s) (few : s.transitions < 2 ^ 64) :
    s.flights.countP (·.generation = s.breaker.generation) = s.pending := by
  refine List.countP_congr fun c hc => ?_
  simpa only [decide_eq_true_eq] using h.current few hc

/-- The probes in flight are the calls of a half-open period. -/
theorem Regular.probes_le {s : Traffic} (h : Regular s) : s.flights.countP (·.probe) ≤ 1 := by
  cases state : s.breaker.state with
  | halfOpen =>
    have means := h.means
    have all : s.flights.countP (·.probe) = s.pending := by
      refine List.countP_congr fun c hc => ?_
      simpa only [decide_eq_true_eq, state, and_true] using h.probes c hc
    simp only [Traffic.Means, state] at means
    rw [all, means]
    split <;> omega
  | closed | open_ =>
    have none : s.flights.countP (·.probe) = 0 := by
      refine List.countP_eq_zero.mpr fun c hc probe => ?_
      have halfOpen := ((h.probes c hc).mp probe).2
      rw [state] at halfOpen
      cases halfOpen
    omega

/-- Without a probe in flight the flag is down. -/
theorem Regular.probe_free {s : Traffic} (h : Regular s) (halfOpen : s.breaker.state = .halfOpen)
    (free : ∀ c ∈ s.flights, c.probe = false) : s.breaker.probe = false := by
  have none : s.pending = 0 := by
    refine List.countP_eq_zero.mpr fun c hc current => ?_
    have probe := (h.probes c hc).mpr ⟨of_decide_eq_true current, halfOpen⟩
    rw [free c hc] at probe
    cases probe
  have means := h.means
  simp only [Traffic.Means, halfOpen, none] at means
  cases probe : s.breaker.probe with
  | false => rfl
  | true => simp [probe] at means

/-- **One probe.** In every reachable state of the breaker under any callers: a half-open circuit
has one call of its generation in flight or none, as the flag says; the flag is down in a closed or
open one, and an open one has no call of its generation in flight. So at most one probe is in
flight, and without one a half-open circuit admits the next caller, at any time. -/
theorem single_probe {s : Traffic} (h : traffic.Reachable s) (few : s.transitions < 2 ^ 64) :
    (s.breaker.state = .halfOpen →
      s.flights.countP (·.generation = s.breaker.generation) = if s.breaker.probe then 1 else 0) ∧
    (s.breaker.state = .closed ∨ s.breaker.state = .open_ → s.breaker.probe = false) ∧
    (s.breaker.state = .open_ → ∀ c ∈ s.flights, c.generation ≠ s.breaker.generation) ∧
    s.flights.countP (·.probe) ≤ 1 ∧
    (s.breaker.state = .halfOpen → (∀ c ∈ s.flights, c.probe = false) →
      ∀ now, (s.breaker.admit_ now).2 = some s.breaker.generation) := by
  have means := (regular h few).means
  refine ⟨?_, ?_, ?_, (regular h few).probes_le, ?_⟩
  · intro halfOpen
    rw [(regular h few).pending_eq few]
    simpa only [Traffic.Means, halfOpen] using means
  · rintro (state | state)
    · simp only [Traffic.Means, state] at means
      exact means.1
    · simp only [Traffic.Means, state] at means
      exact means.1
  · intro opened c hc same
    simp only [Traffic.Means, opened] at means
    have current := ((regular h few).current few hc).mp same
    exact List.countP_eq_zero.mp means.2 c hc (decide_eq_true current)
  · intro halfOpen free now
    have down := (regular h few).probe_free halfOpen free
    simp [Breaker.admit_, halfOpen, down]

/-- Four calls enter a closed circuit, three fail, the fourth is still out when the probe that
followed is cancelled. -/
def cancelledProbe : List Section :=
  [.admit_ 0, .admit_ 0, .admit_ 0, .admit_ 0, .complete 0 .error 1 0, .complete 0 .error 2 0,
    .complete 0 .error 3 0, .admit_ 20000000000, .complete 0 .canceled 20000000001 0]

theorem single_probe_cancelled :
    ∃ s, traffic.Reachable s ∧ s.transitions < 2 ^ 64 ∧ s.breaker.state = .halfOpen ∧
      s.flights = [⟨0, 0, false⟩] ∧ s.flights.countP (·.probe) ≤ 1 ∧
      ∀ now, (s.breaker.admit_ now).2 = some s.breaker.generation := by
  have replayed : ∃ s, System.replay Traffic.step quiet cancelledProbe = some s ∧
      s.transitions < 2 ^ 64 ∧ s.breaker.state = .halfOpen ∧ s.flights = [⟨0, 0, false⟩] :=
    ⟨_, rfl, by decide⟩
  obtain ⟨s, hs, few, halfOpen, flights⟩ := replayed
  have reached : traffic.Reachable s := ⟨quiet, rfl, System.Runs.of_replay hs⟩
  obtain ⟨_, _, _, one, admits⟩ := single_probe reached few
  exact ⟨s, reached, few, halfOpen, flights, one, admits halfOpen (by simp [flights])⟩

/-! ## The trips -/

/-- What the history says a completion of `c` does: a closed circuit opens when it and the two
answers before it in this period are errors, and only then; a half-open one follows its probe; an
open one stays open; and a call of an earlier period changes nothing. -/
structure Judged (s t : Traffic) (c : Flight) (outcome : Outcome) : Prop where
  opens : s.breaker.state = .closed → (t.breaker.state = .open_ ↔
    c.period = s.transitions ∧ outcome = .error ∧ s.answers.take 2 = [.error, .error])
  stays : s.breaker.state = .closed → t.breaker.state ≠ .open_ → t.breaker.state = .closed
  fails : s.breaker.state = .halfOpen →
    (t.breaker.state = .open_ ↔ c.probe = true ∧ outcome = .error)
  recovers : s.breaker.state = .halfOpen →
    (t.breaker.state = .closed ↔ c.probe = true ∧ outcome = .success)
  waits : s.breaker.state = .halfOpen →
    (t.breaker.state = .halfOpen ↔ c.probe = false ∨ outcome = .canceled)
  remains : s.breaker.state = .open_ → t.breaker.state = .open_
  ignores : c.period < s.transitions → t.breaker = s.breaker

namespace Regular

variable {s : Traffic} {i : Nat} {c : Flight}

/-- The third error in a row is the one that reaches the limit. -/
theorem third_error (h : Regular s) (closed : s.breaker.state = .closed) :
    3 ≤ wrap64 (s.breaker.failures + 1) ↔ s.answers.take 2 = [.error, .error] := by
  have few := (h.failures closed).2.2
  rw [h.failures_next closed, take_two_iff few]
  omega

/-- A call of the closed period. -/
theorem judged_closed (h : Regular s) (few : s.transitions < 2 ^ 64) (hc : c ∈ s.flights)
    (current : c.period = s.transitions) (closed : s.breaker.state = .closed) (i : Nat)
    (outcome : Outcome) (now : Instant) (source : Nat) :
    Judged s (s.complete c i outcome now source) c outcome := by
  have third := h.third_error closed
  have done := left ((h.current few hc).mpr current) current i outcome now source
  generalize s.complete c i outcome now source = t at done ⊢
  cases done with
  | canceled => constructor <;> simp [closed, current]
  | succeeded => constructor <;> simp [closed, current]
  | recovered probing => simp [closed] at probing
  | counted _ below =>
    have short : ¬ s.answers.take 2 = [.error, .error] := fun both => by
      have reached := third.mpr both
      omega
    constructor <;> simp [closed, current, short]
  | tripped _ due =>
    have both := third.mp (due.resolve_left (by simp [closed]))
    constructor <;> simp [closed, current, both]

/-- The probe of the half-open period. -/
theorem judged_probe (h : Regular s) (few : s.transitions < 2 ^ 64) (hc : c ∈ s.flights)
    (current : c.period = s.transitions) (halfOpen : s.breaker.state = .halfOpen) (i : Nat)
    (outcome : Outcome) (now : Instant) (source : Nat) :
    Judged s (s.complete c i outcome now source) c outcome := by
  have probe : c.probe = true := (h.probes c hc).mpr ⟨current, halfOpen⟩
  have done := left ((h.current few hc).mpr current) current i outcome now source
  generalize s.complete c i outcome now source = t at done ⊢
  cases done with
  | canceled => constructor <;> simp [halfOpen, current, probe]
  | succeeded running => exact absurd halfOpen running
  | recovered => constructor <;> simp [halfOpen, current, probe]
  | counted running => exact absurd halfOpen running
  | tripped => constructor <;> simp [halfOpen, current, probe]

/-- A call of an earlier period. -/
theorem judged_earlier (h : Regular s) (few : s.transitions < 2 ^ 64) (hc : c ∈ s.flights)
    (earlier : c.period ≠ s.transitions) (i : Nat) (outcome : Outcome) (now : Instant)
    (source : Nat) : Judged s (s.complete c i outcome now source) c outcome := by
  have old : c.generation ≠ s.breaker.generation := fun same => earlier ((h.current few hc).mp same)
  have plain : c.probe = false := by
    rw [← Bool.not_eq_true, h.probes c hc]
    exact fun both => earlier both.1
  rw [left_earlier old earlier]
  constructor <;> simp +contextual [earlier, plain]

end Regular

/-- **Three errors in a row.** In every run, before the generation wraps, each completion does what
the history says, and an admission changes the state from open to half open or not at all. -/
theorem trips_on_third_error {s t : Traffic} {e : Section} (h : traffic.Reachable s)
    (few : s.transitions < 2 ^ 64) (step : traffic.step s e t) :
    (∀ now, e = .admit_ now → t.breaker.state = s.breaker.state ∨
      s.breaker.state = .open_ ∧ t.breaker.state = .halfOpen) ∧
    ∀ i outcome now source, e = .complete i outcome now source →
      ∃ c, s.flights[i]? = some c ∧ Judged s t c outcome := by
  have regular := regular h few
  obtain ⟨now, rfl, rfl⟩ | ⟨i, outcome, now, source, c, rfl, hc, rfl⟩ := traffic_step step
  · refine ⟨?_, by rintro _ _ _ _ ⟨⟩⟩
    rintro _ ⟨⟩
    have done := entered s now
    generalize s.admit_ now = t at done ⊢
    cases done with
    | refused | passed | probing => exact .inl rfl
    | reopened opened | blocked opened => exact .inr ⟨opened, rfl⟩
  · refine ⟨by rintro _ ⟨⟩, ?_⟩
    rintro _ _ _ _ ⟨⟩
    have mem := List.mem_of_getElem? hc
    refine ⟨c, hc, ?_⟩
    by_cases current : c.period = s.transitions
    · rcases regular.state_of_current mem current with closed | ⟨halfOpen, _⟩
      · exact regular.judged_closed few mem current closed i outcome now source
      · exact regular.judged_probe few mem current halfOpen i outcome now source
    · exact regular.judged_earlier few mem current i outcome now source

/-- The third error in a row, with a late call of the same period still out. -/
theorem trips_on_third_error_late :
    ∃ s t, traffic.Reachable s ∧ s.transitions < 2 ^ 64 ∧ s.breaker.state = .closed ∧
      traffic.step s (.complete 0 .error 3 0) t ∧ t.breaker.state = .open_ := by
  have replayed : ∃ s, System.replay Traffic.step quiet (cancelledProbe.take 6) = some s ∧
      s.transitions < 2 ^ 64 ∧ s.breaker.state = .closed ∧ s.answers.take 2 = [.error, .error] ∧
      s.transitions = 0 ∧ s.flights = [⟨0, 0, false⟩, ⟨0, 0, false⟩] :=
    ⟨_, rfl, by decide⟩
  obtain ⟨s, hs, few, closed, errors, first, flights⟩ := replayed
  have reached : traffic.Reachable s := ⟨quiet, rfl, System.Runs.of_replay hs⟩
  have fails : traffic.step s (.complete 0 .error 3 0)
      (s.complete ⟨0, 0, false⟩ 0 .error 3 0) := by
    simp only [traffic, System.ofStep, Traffic.step, flights, List.getElem?_cons_zero]
  obtain ⟨c, hc, judged⟩ := (trips_on_third_error reached few fails).2 0 .error 3 0 rfl
  rw [flights] at hc
  cases hc
  exact ⟨s, _, reached, few, closed, fails, (judged.opens closed).mpr ⟨first.symm, rfl, errors⟩⟩

/-! ## Past the wrap -/

/-- The circuit is open after `n` transitions, and the first call is still in flight. -/
def Failing (n : Nat) (s : Traffic) : Prop :=
  s.breaker.state = .open_ ∧ s.breaker.probe = false ∧ s.breaker.generation = UInt64.ofNat n ∧
    s.flights = [⟨0, 0, false⟩] ∧ s.transitions = n

/-- Once the time is up, the next call is the probe. -/
theorem Failing.admit_ {n : Nat} {s : Traffic} (h : Failing n s) :
    s.admit_ s.breaker.until_ =
      ⟨{ s.breaker with state := .halfOpen, generation := UInt64.ofNat (n + 1), probe := true },
        [⟨UInt64.ofNat (n + 1), n + 1, true⟩, ⟨0, 0, false⟩], n + 1, []⟩ := by
  obtain ⟨opened, free, generation, flights, transitions⟩ := h
  have done := entered s s.breaker.until_
  generalize s.admit_ s.breaker.until_ = t at done ⊢
  cases done with
  | refused waiting => simp [opened] at waiting
  | passed closed => simp [opened] at closed
  | probing halfOpen => simp [opened] at halfOpen
  | reopened => rw [generation, flights, transitions, ofNat_succ]
  | blocked _ stuck => simp [free] at stuck

/-- The probe fails, and the circuit is open for the next one. -/
theorem Failing.next {n : Nat} {s : Clocked} (h : Failing n s.traffic)
    (early : s.clock ≤ s.traffic.breaker.until_) :
    ∃ t, clocked.Runs s t ∧ Failing (n + 2) t.traffic ∧ t.clock ≤ t.traffic.breaker.until_ := by
  generalize now : s.traffic.breaker.until_ = u at early
  have probing := h.admit_
  rw [now] at probing
  have entering : clocked.step s (.admit_ u) ⟨s.traffic.admit_ u, u⟩ := clocked_of_step early rfl
  have leaving : clocked.step ⟨s.traffic.admit_ u, u⟩ (.complete 0 .error u 0)
      ⟨(s.traffic.admit_ u).complete ⟨UInt64.ofNat (n + 1), n + 1, true⟩ 0 .error u 0, u⟩ := by
    rw [probing]
    exact clocked_of_step (Int.le_refl u) rfl
  refine ⟨_, (System.Runs.single entering).trans (System.Runs.single leaving), ?_⟩
  have done : Left (s.traffic.admit_ u) 0 .error _ :=
    left (c := ⟨UInt64.ofNat (n + 1), n + 1, true⟩)
    (by rw [probing]) (by rw [probing]) 0 .error u 0
  have opened : Failing (n + 2)
      ((s.traffic.admit_ u).complete ⟨UInt64.ofNat (n + 1), n + 1, true⟩ 0 .error u 0) := by
    generalize (s.traffic.admit_ u).complete ⟨UInt64.ofNat (n + 1), n + 1, true⟩ 0 .error u
      0 = t at done ⊢
    rw [probing] at done
    cases done with
    | counted running => exact absurd rfl running
    | tripped => exact ⟨rfl, rfl, ofNat_succ (n + 1), rfl, rfl⟩
  have later : (s.traffic.admit_ u).breaker.state ≠ .open_ := by
    rw [probing]
    exact State.noConfusion
  refine ⟨opened, ?_⟩
  have state := opened.1
  rw [complete_breaker] at state ⊢
  have least := (complete_until later state).1
  have waits : 0 ≤ 5 * Duration.second := by decide
  exact Int.le_trans (Int.le_add_of_nonneg_right waits) least

/-- Any number of probes fail, one after another. -/
theorem failing (k : Nat) :
    ∃ s, clocked.Reachable s ∧ Failing (2 * k + 1) s.traffic ∧
    s.clock ≤ s.traffic.breaker.until_ := by
  induction k with
  | zero =>
    have replayed : ∃ s, System.replay Clocked.step ⟨quiet, 0⟩ (cancelledProbe.take 7) = some s ∧
        Failing 1 s.traffic ∧ s.clock ≤ s.traffic.breaker.until_ :=
          ⟨_, rfl, by unfold Failing; decide, by decide⟩
    obtain ⟨s, hs, first⟩ := replayed
    exact ⟨s, ⟨⟨quiet, 0⟩, rfl, System.Runs.of_replay hs⟩, first⟩
  | succ k ih =>
    obtain ⟨s, reached, failed, early⟩ := ih
    obtain ⟨t, run, again⟩ := failed.next early
    exact ⟨t, reached.runs run, again⟩

/-- **An old call closes the circuit.** After 2^64 transitions a call admitted in the first period
completes under the generation of a half-open one, whose probe is still out. -/
theorem wrapped_call_closes :
    ∃ s t now source c, traffic.Reachable s ∧ s.flights[1]? = some c ∧ c.period < s.transitions ∧
      traffic.step s (.complete 1 .success now source) t ∧ s.breaker.state = .halfOpen ∧
      t.breaker.state = .closed := by
  obtain ⟨⟨s, clock⟩, reached, failed, _⟩ := failing (2 ^ 63 - 1)
  have entering : traffic.step s (.admit_ s.breaker.until_) (s.admit_ s.breaker.until_) := rfl
  rw [failed.admit_] at entering
  exact ⟨_, _, 0, 0, _, (clocked_traffic reached).step entering, rfl, Nat.succ_pos _, rfl, rfl, rfl⟩

end OtusApp.Resilience
