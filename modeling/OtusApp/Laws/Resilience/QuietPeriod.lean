import OtusApp.Laws.Resilience.Breaker

/-!
# The quiet period of an open circuit

From the moment the circuit opens, either nothing about the breaker has changed, or the deadline
that was drawn then has passed and a probe was let in: `Lasting` is kept by every critical section,
whichever call makes it. The deadline lies five to ten seconds ahead (`complete_until`).

This holds as long as the generation has not wrapped. Of each three transitions one ends an open
period, and that takes five seconds (`Paced`): as many transitions as wrap the generation take
longer than a `time.Time` can tell (`few_transitions`).
-/

namespace OtusApp.Resilience

open Go Transition

/-- A critical section that opens the circuit. -/
structure Opens (s : Clocked) (e : Section) (t : Clocked) : Prop where
  step : timed.step s e t
  before : s.traffic.breaker.state ≠ .open_
  after : t.traffic.breaker.state = .open_

/-- An admission does not open the circuit. -/
theorem admit_state {s : Traffic} {now : Instant} (before : s.breaker.state ≠ .open_) :
    (s.admit_ now).breaker.state ≠ .open_ := by
  have done := entered s now
  generalize s.admit_ now = t at done ⊢
  cases done with
  | refused | passed | probing => exact before
  | reopened opened | blocked opened => exact absurd opened before

theorem traffic_deadline {s t : Traffic} {e : Section} (step : traffic.step s e t)
    (before : s.breaker.state ≠ .open_) (after : t.breaker.state = .open_) :
    e.now + 5 * Duration.second ≤ t.breaker.until_ ∧ t.breaker.until_ < e.now + 10 *
      Duration.second := by
  obtain ⟨now, rfl, moved⟩ | ⟨i, outcome, now, source, c, rfl, _, moved⟩ := traffic_step step
  · rw [moved] at after
    exact absurd after (admit_state before)
  · rw [moved, complete_breaker] at after ⊢
    exact complete_until before after

theorem Opens.deadline {s t : Clocked} {e : Section} (h : Opens s e t) :
    e.now + 5 * Duration.second ≤ t.traffic.breaker.until_ ∧
      t.traffic.breaker.until_ < e.now + 10 * Duration.second :=
  traffic_deadline (clocked_step h.step.2).2.2 h.before h.after

/-- In an open circuit every call in flight is one of an earlier period, and its completion is
ignored. -/
theorem Regular.complete_open {s : Traffic} (h : Regular s) (few : s.transitions < 2 ^ 64)
    (opened : s.breaker.state = .open_) {i : Nat} {c : Flight} (hc : s.flights[i]? = some c)
    (outcome : Outcome) (now : Instant) (source : Nat) :
    s.complete c i outcome now source = { s with flights := s.flights.eraseIdx i } := by
  have mem := List.mem_of_getElem? hc
  have means := h.means
  simp only [Traffic.Means, opened] at means
  have earlier : c.period ≠ s.transitions := fun current =>
    List.countP_eq_zero.mp means.2 c mem (decide_eq_true current)
  have old : c.generation ≠ s.breaker.generation := fun same =>
    earlier ((h.current few mem).mp same)
  exact left_earlier old earlier i outcome now source

/-! ## The pace of the transitions -/

/-- What a critical section at `now` does to the circuit, and how many transitions it makes. -/
inductive Turns (b : Breaker) (now : Instant) (b' : Breaker) : Nat → Prop
  | stays (state : b'.state = b.state) (deadline : b'.until_ = b.until_) : Turns b now b' 0
  | probes (opened : b.state = .open_) (halfOpen : b'.state = .halfOpen) (due : b.until_ ≤ now) :
      Turns b now b' 1
  | recovers (halfOpen : b.state = .halfOpen) (closed : b'.state = .closed) : Turns b now b' 1
  | trips (before : b.state ≠ .open_) (opened : b'.state = .open_)
      (least : now + 5 * Duration.second ≤ b'.until_)
      (most : b'.until_ < now + 10 * Duration.second) : Turns b now b' 1

theorem turns {s t : Traffic} {e : Section} (h : Regular s) (few : s.transitions < 2 ^ 64)
    (step : traffic.step s e t) :
    ∃ n, t.transitions = s.transitions + n ∧ Turns s.breaker e.now t.breaker n := by
  have trips := traffic_deadline step
  obtain ⟨now, rfl, moved⟩ | ⟨i, outcome, now, source, c, rfl, hc, moved⟩ := traffic_step step
  · have done := entered s now
    rw [← moved] at done
    cases done with
    | refused | passed | probing => exact ⟨0, rfl, .stays rfl rfl⟩
    | reopened opened due => exact ⟨1, rfl, .probes opened rfl due⟩
    | blocked opened stuck =>
      rw [h.probe_open opened] at stuck
      cases stuck
  · by_cases current : c.period = s.transitions
    · have mem := List.mem_of_getElem? hc
      have same : c.generation = s.breaker.generation := (h.current few mem).mpr current
      have done := left same current i outcome now source
      rw [← moved] at done
      cases done with
      | canceled | succeeded | counted => exact ⟨0, rfl, .stays rfl rfl⟩
      | recovered probing => exact ⟨1, rfl, .recovers probing rfl⟩
      | tripped deadline =>
        have before : s.breaker.state ≠ .open_ := by
          rcases h.state_of_current mem current with closed | ⟨halfOpen, _⟩
          · simp [closed]
          · simp [halfOpen]
        obtain ⟨least, most⟩ := trips before rfl
        exact ⟨1, rfl, .trips before rfl least most⟩
    · have old : c.generation ≠ s.breaker.generation := fun same =>
        current ((h.current few (List.mem_of_getElem? hc)).mp same)
      rw [left_earlier old current] at moved
      rw [moved]
      exact ⟨0, rfl, .stays rfl rfl⟩

/-- The nanoseconds since the first reading that a `time.Time` can hold. -/
def age (t : Instant) : Int := t + (2 ^ 63 + 62135596800) * 1000000000

theorem age_add (t : Instant) (d : Duration) : age (t + d) = age t + d := Int.add_right_comm ..

theorem age_le {t u : Instant} (h : t ≤ u) : age t ≤ age u := Int.add_le_add_right h _

theorem age_lt {t u : Instant} (h : t < u) : age t < age u := Int.add_lt_add_right h _

theorem inRange_age {t : Instant} (h : t.InRange) : 0 ≤ age t ∧ age t < 2 ^ 64 * 1000000000 := by
  simp only [Instant.InRange, Instant.unix, Duration.second] at h
  unfold age
  omega

/-- Three transitions take five seconds. A transition ahead of that pace is made up for before the
circuit closes again: the one to half open by the time the circuit was open, and the one to open by
the time it will be. -/
def Paced (s : Clocked) : Prop :=
  match s.traffic.breaker.state with
  | .closed => s.traffic.transitions = 0 ∨
      s.clock.InRange ∧ 5000000000 * (s.traffic.transitions : Int) ≤ 3 * age s.clock
  | .open_ => s.clock.InRange ∧ age s.traffic.breaker.until_ < age s.clock + 10000000000 ∧
      5000000000 * ((s.traffic.transitions : Int) + 2) ≤ 3 * age s.traffic.breaker.until_
  | .halfOpen =>
    s.clock.InRange ∧ 5000000000 * ((s.traffic.transitions : Int) + 1) ≤ 3 * age s.clock

/-- At that pace the generation does not wrap. -/
theorem Paced.few {s : Clocked} (h : Paced s) : s.traffic.transitions < 2 ^ 64 := by
  rw [Paced] at h
  split at h
  · rcases h with none | ⟨inRange, pace⟩
    · omega
    · have := inRange_age inRange
      omega
  · have := inRange_age h.1
    omega
  · have := inRange_age h.1
    omega

theorem Paced.step {s t : Clocked} {e : Section} (h : Paced s) (regular : Regular s.traffic)
    (hstep : timed.step s e t) : Paced t := by
  obtain ⟨⟨inRange, _⟩, hstep⟩ := hstep
  obtain ⟨later, clock, step⟩ := clocked_step hstep
  obtain ⟨n, transitions, turned⟩ := turns regular h.few step
  have elapsed := age_le later
  have first := (inRange_age inRange).1
  rw [Paced] at h ⊢
  rw [clock, transitions]
  cases turned with
  | stays state deadline =>
    rw [state, deadline]
    cases before : s.traffic.breaker.state with
    | closed =>
      simp only [before] at h ⊢
      rcases h with none | ⟨_, pace⟩
      · exact .inl none
      · exact .inr ⟨inRange, by omega⟩
    | open_ =>
      simp only [before] at h ⊢
      exact ⟨inRange, by omega, by omega⟩
    | halfOpen =>
      simp only [before] at h ⊢
      exact ⟨inRange, by omega⟩
  | probes opened halfOpen due =>
    have waited := age_le due
    simp only [opened] at h
    simp only [halfOpen]
    exact ⟨inRange, by omega⟩
  | recovers halfOpen closed =>
    simp only [halfOpen] at h
    simp only [closed]
    exact .inr ⟨inRange, by omega⟩
  | trips before opened least most =>
    have least := age_le least
    have most := age_lt most
    rw [age_add] at least most
    simp only [Duration.second] at least most
    simp only [opened]
    refine ⟨inRange, most, ?_⟩
    cases state : s.traffic.breaker.state with
    | closed =>
      simp only [state] at h
      omega
    | open_ => exact absurd state before
    | halfOpen =>
      simp only [state] at h
      omega

/-- **Too few transitions.** -/
theorem few_transitions {s : Clocked} (h : timed.Reachable s) : s.traffic.transitions < 2 ^ 64 := by
  refine Paced.few (h.invariant ?_ ?_)
  · rintro s start
    rw [Paced, show s.traffic = quiet from start]
    exact .inl rfl
  · intro s e t reached paced hstep
    exact paced.step (regular (clocked_traffic reached.of_restrict) paced.few) hstep

/-! ## The period -/

/-- Nothing has changed since the circuit opened, or its time was up. -/
def Lasting (t w : Clocked) : Prop :=
  (w.traffic.transitions = t.traffic.transitions ∧ w.traffic.breaker = t.traffic.breaker) ∨
    (t.traffic.transitions < w.traffic.transitions ∧ t.traffic.breaker.until_ ≤ w.clock)

theorem Lasting.step {t w w' : Clocked} {e : Section} (h : Lasting t w)
    (opened : t.traffic.breaker.state = .open_) (reached : timed.Reachable w)
    (hstep : timed.step w e w') : Lasting t w' := by
  obtain ⟨later, clock, step⟩ := clocked_step hstep.2
  have few := few_transitions reached
  have regular := regular (clocked_traffic reached.of_restrict) few
  have grows := transitions_le step
  rcases h with ⟨transitions, breaker⟩ | ⟨passed, due⟩
  · have still : w.traffic.breaker.state = .open_ := by rw [breaker, opened]
    obtain ⟨now, rfl, moved⟩ | ⟨i, outcome, now, source, c, rfl, hc, moved⟩ := traffic_step step
    · have done := entered w.traffic now
      rw [← moved] at done
      obtain ⟨after, clock'⟩ := w'
      cases clock
      cases done with
      | refused => exact .inl ⟨transitions, breaker⟩
      | passed closed => simp [still] at closed
      | probing halfOpen => simp [still] at halfOpen
      | reopened _ due =>
        refine .inr ⟨?_, ?_⟩
        · rw [← transitions]
          exact Nat.lt_succ_self _
        · rw [← breaker]
          exact due
      | blocked _ stuck =>
        rw [regular.probe_open still] at stuck
        cases stuck
    · rw [regular.complete_open few still hc] at moved
      rw [Lasting, moved]
      exact .inl ⟨transitions, breaker⟩
  · refine .inr ⟨Nat.lt_of_lt_of_le passed grows, ?_⟩
    rw [clock]
    exact Int.le_trans due later

/-- What holds from the moment the circuit opens. -/
theorem lasting {t w : Clocked} (h : timed.Reachable t) (opened : t.traffic.breaker.state = .open_)
    (run : timed.Runs t w) : Lasting t w := by
  induction run with
  | refl => exact .inl ⟨rfl, rfl⟩
  | tail before next ih =>
    obtain ⟨e, hstep⟩ := next
    exact ih.step opened (h.runs before) hstep

/-- An open breaker lets one call through once its deadline has passed, as a probe. -/
theorem Regular.admits_probe {s : Traffic} {now : Instant} (h : Regular s)
    (opened : s.breaker.state = .open_) (due : s.breaker.until_ ≤ now) :
    ∃ c, (s.admit_ now).flights = c :: s.flights ∧ c.probe = true := by
  have done := entered s now
  generalize s.admit_ now = v at done ⊢
  cases done with
  | refused waiting =>
    rcases waiting with ⟨_, early⟩ | ⟨halfOpen, _⟩
    · exact absurd due (Int.not_le.mpr early)
    · simp [opened] at halfOpen
  | passed closed => simp [opened] at closed
  | probing halfOpen => simp [opened] at halfOpen
  | reopened => exact ⟨_, rfl, rfl⟩
  | blocked _ stuck =>
    rw [h.probe_open opened] at stuck
    cases stuck

/-- **The quiet period.** The circuit opens at `e.now`. No call is admitted in the five seconds
after; no completion changes the breaker while it is open; and once ten seconds have passed, the
next admission is that of the probe. -/
theorem quiet_period {s t w : Clocked} {e : Section} (h : timed.Reachable s) (opens : Opens s e t)
    (run : timed.Runs t w) :
    (∀ now, w.clock ≤ now → now < e.now + 5 * Duration.second →
      (w.traffic.admit_ now).flights = w.traffic.flights ∧
      (w.traffic.breaker.admit_ now).2 = none) ∧
    (w.traffic.transitions = t.traffic.transitions →
      w.traffic.breaker = t.traffic.breaker ∧
      (∀ i outcome now source w', clocked.step w (.complete i outcome now source) w' →
        w'.traffic.breaker = t.traffic.breaker) ∧
      ∀ now, e.now + 10 * Duration.second ≤ now →
        ∃ c, (w.traffic.admit_ now).flights = c :: w.traffic.flights ∧ c.probe = true) := by
  have reached := (h.step opens.step).runs run
  have few := few_transitions reached
  have regular := regular (clocked_traffic reached.of_restrict) few
  have lasts := lasting (h.step opens.step) opens.after run
  obtain ⟨least, most⟩ := opens.deadline
  refine ⟨?_, ?_⟩
  · intro now later early
    have waits : now < t.traffic.breaker.until_ := Int.lt_of_lt_of_le early least
    rcases lasts with ⟨_, breaker⟩ | ⟨_, due⟩
    · have waiting : w.traffic.breaker.state = .open_ ∧ now < w.traffic.breaker.until_ := by
        rw [breaker]
        exact ⟨opens.after, waits⟩
      simp only [Traffic.admit_, Breaker.admit_, Traffic.move, if_pos waiting, if_true, and_self]
    · exact absurd (Int.le_trans due later) (Int.not_le.mpr waits)
  · intro since
    have breaker : w.traffic.breaker = t.traffic.breaker := by
      rcases lasts with ⟨_, breaker⟩ | ⟨passed, _⟩
      · exact breaker
      · omega
    have still : w.traffic.breaker.state = .open_ := by rw [breaker, opens.after]
    refine ⟨breaker, ?_, ?_⟩
    · intro i outcome now source w' hstep
      obtain ⟨_, _, step⟩ := clocked_step hstep
      obtain ⟨_, ⟨⟩, _⟩ | ⟨_, _, _, _, c, ⟨⟩, hc, moved⟩ := traffic_step step
      rw [moved, regular.complete_open few still hc]
      exact breaker
    · intro now late
      have due : w.traffic.breaker.until_ ≤ now := by
        rw [breaker]
        exact Int.le_trans (Int.le_of_lt most) late
      exact regular.admits_probe still due

/-- The third error opens the circuit, and the fourth call completes after it. -/
theorem quiet_period_late :
    ∃ s t w, timed.Reachable s ∧ Opens s (.complete 0 .error 3 0) t ∧ timed.Runs t w ∧
      w.traffic.flights = [] ∧ (w.traffic.breaker.admit_ 5000000002).2 = none ∧
      w.traffic.breaker = t.traffic.breaker ∧
      ∃ c, (w.traffic.admit_ 10000000003).flights = c :: w.traffic.flights ∧ c.probe = true := by
  have replayed : ∃ s t w,
      System.replay (fun s e => if decide (Section.Timely e) then Clocked.step s e
        else none) ⟨quiet, 0⟩
        (cancelledProbe.take 6) = some s ∧
      s.step (.complete 0 .error 3 0) = some t ∧ t.step (.complete 0 .error 4 0) = some w ∧
      s.traffic.breaker.state ≠ .open_ ∧ t.traffic.breaker.state = .open_ ∧
      w.traffic.transitions = t.traffic.transitions ∧ w.traffic.flights = [] ∧ w.clock = 4 :=
    ⟨_, _, _, rfl, rfl, rfl, by decide⟩
  obtain ⟨s, t, w, before, opening, late, closed, opened, since, flights, clock⟩ := replayed
  have reached : timed.Reachable s :=
    ⟨⟨quiet, 0⟩, rfl, System.Runs.of_checked (fun _ _ => of_decide_eq_true) before⟩
  have timely : Section.Timely (.complete 0 .error 3 0) ∧
    Section.Timely (.complete 0 .error 4 0) := by decide
  have opens : Opens s (.complete 0 .error 3 0) t := ⟨⟨timely.1, opening⟩, closed, opened⟩
  have run : timed.Runs t w := .single ⟨timely.2, late⟩
  obtain ⟨quiet, still⟩ := quiet_period reached opens run
  obtain ⟨breaker, _, probe⟩ := still since
  refine ⟨s, t, w, reached, opens, run, flights, ?_, breaker, probe _ (by decide)⟩
  exact (quiet 5000000002 (by rw [clock]; decide) (by decide)).2

end OtusApp.Resilience
