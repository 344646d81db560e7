import OtusApp.Coord.Watch

/-!
# Live configuration

The loop of `WatchInt` follows the key as a register with versions: the limit shows the key as of
the revision the loop has come to. A read brings it to the store's revision, a watch opened from the
revision after the read leaves no gap, and each delivered event moves it on.

A failed read breaks the chain: it forgets the revision, and the watch that follows is opened
without one. What was written before that opening is then neither read nor delivered. So the law is
about the reads that fail and the puts meanwhile, which an observer beside the run keeps account of
(`Account`): it holds of the runs in which no watch is opened after a failed read while the last put
of the key was neither read nor delivered. Such an opening is the only way to lose an update, and it
does lose it.
-/

namespace OtusApp.Coord

open Transition Versioned Go Ratelimit

/-- The limit is the value of the last change, if that is a positive number. -/
def Shows (limit : Int) (last : Option (Change (Option String))) : Prop :=
  ∀ raw n, last.bind Change.value = some raw → parseInt (trimSpace raw) = some n → 0 < n → limit = n

/-- The limit is the key's value, if that is a positive number. -/
def Current (s : Watch) : Prop := Shows s.limit s.events.head?

/-- A watch is established and has delivered every event up to the store's revision. -/
def Delivered (s : Watch) : Prop :=
  ∃ next, s.phase = .watching next ∧ ∀ c ∈ s.events, c.version < next

/-- An account of the reads and the deliveries: whether the last `fetchInt` failed, and the revision
before which every change of the key was read or delivered, or came before one that was. -/
structure Account where
  failed : Bool
  seen : Nat
deriving DecidableEq, Repr

/-- The account after a step. A read sees the key at the store's revision, a response the changes
that come with it. -/
def Account.after (a : Account) (s : Watch) : Step → Account
  | .fetch true => ⟨false, s.revision + 1⟩
  | .fetch false => { a with failed := true }
  | .deliver n _ =>
    match s.phase with
    | .watching next => { a with seen := following ((pending s.events next).take n) a.seen }
    | _ => a
  | _ => a

/-- The store and the loop, with an account of their run. -/
def accounted : System (Watch × Account) Step :=
  System.observed Called Watch.step ⟨false, 0⟩ Account.after

/-- A change that `applyInt` and `SetLimit` take: the put of a positive number. -/
def Applicable (c : Change (Option String)) : Prop :=
  ∃ raw n, c.value = some raw ∧ parseInt (trimSpace raw) = some n ∧ 0 < n

/-- No watch is opened after a failed read while the last change of the key is a put that is neither
read nor delivered. -/
def Admitted (x : Watch × Account) (e : Step) : Prop :=
  e = .watch → x.2.failed = true → ∀ c, x.1.events.head? = some c → Applicable c →
  c.version < x.2.seen

/-- An applied value is shown, whatever the limit was. -/
theorem shows_apply (limit : Int) (c : Change (Option String)) :
    Shows (applyEvent limit c) (some c) := by
  intro raw n value parsed positive
  have value : c.value = some raw := value
  simp only [applyEvent, value, applyInt, parsed, setLimit]
  exact if_neg (by omega)

/-- The last change of a batch is shown. -/
theorem shows_batch (limit : Int) {batch : List (Change (Option String))}
    {c : Change (Option String)} (last : batch.getLast? = some c) :
    Shows (batch.foldl applyEvent limit) (some c) := by
  obtain ⟨before, rfl⟩ := List.getLast?_eq_some_iff.mp last
  rw [List.foldl_append, List.foldl_cons, List.foldl_nil]
  exact shows_apply _ c

/-- What `fetchInt` applies. -/
theorem shows_fetch (s : Watch) :
    Shows ((s.current.map (applyInt s.limit)).getD s.limit) s.events.head? := by
  intro raw n value parsed positive
  have value : s.current = some raw := value
  simp only [value, Option.map_some, Option.getD_some, applyInt, parsed, setLimit]
  exact if_neg (by omega)

/-! ## The invariant -/

/-- What the loop has come to, by where it stands. -/
def Reached (s : Watch) : Phase → Prop
  | .opening => 0 < s.rev → s.rev ≤ s.revision ∧ Shows s.limit (asOf s.events (s.rev + 1))
  | .watching next => next ≤ s.revision + 1 ∧ Shows s.limit (asOf s.events next)
  | _ => True

/-- The store's own invariant. -/
structure Stored (s : Watch) : Prop where
  started : 0 < s.revision
  ordered : Ordered s.events
  written : ∀ c ∈ s.events, c.version ≤ s.revision

/-- The key as of the store's revision is the key. -/
theorem Stored.asOf_revision {s : Watch} (h : Stored s) :
    asOf s.events (s.revision + 1) = s.events.head? :=
  asOf_all fun c hc => Nat.lt_succ_of_le (h.written c hc)

theorem Stored.write {s : Watch} (h : Stored s) (change : Option (Option String)) :
    Stored (s.write change) := by
  cases change with
  | none => exact ⟨Nat.succ_pos _, h.ordered, fun c hc => Nat.le_succ_of_le (h.written c hc)⟩
  | some value =>
    refine ⟨Nat.succ_pos _, ?_, fun c hc => ?_⟩
    · exact List.pairwise_cons.mpr ⟨fun c hc => Nat.lt_succ_of_le (h.written c hc), h.ordered⟩
    · rcases List.mem_cons.mp hc with rfl | hc
      · exact Nat.le_refl _
      · exact Nat.le_succ_of_le (h.written c hc)

/-- What a step can do. -/
inductive Took (s : Watch) : Step → Watch → Prop
  | wrote {e : Step} (change : Option (Option String)) (unread : ∀ a : Account, a.after s e = a) :
      Took s e (s.write change)
  | fetched : Took s (.fetch true) { s with
      phase := .opening
      rev := s.revision
      limit := (s.current.map (applyInt s.limit)).getD s.limit }
  | failed : Took s (.fetch false) { s with phase := .opening, rev := 0 }
  | watched (opening : s.phase = .opening) : Took s .watch { s with
      phase := .watching (if s.rev > 0 then s.rev + 1 else s.revision + 1) }
  | delivered {n header next rev : Nat} (watching : s.phase = .watching next) :
      Took s (.deliver n header) { s with
        phase := .watching (following ((pending s.events next).take n) next)
        rev := rev
        limit := ((pending s.events next).take n).foldl applyEvent s.limit }
  | ignored : Took s .errorResponse s
  | left {e : Step} {phase : Phase} (outside : phase = .pausing ∨ phase = .fetching ∨
      phase = .stopped)
      (unread : ∀ a : Account, a.after s e = a) : Took s e { s with phase := phase }

theorem step_took {s t : Watch} {e : Step} (hstep : s.step e = some t) : Took s e t := by
  cases e with
  | put raw =>
    cases hstep
    exact .wrote _ fun _ => rfl
  | delete =>
    cases hstep
    exact .wrote _ fun _ => rfl
  | other =>
    cases hstep
    exact .wrote _ fun _ => rfl
  | fetch ok =>
    simp only [Watch.step] at hstep
    split at hstep
    · cases hstep
    · cases ok with
      | true =>
        cases hstep
        exact .fetched
      | false =>
        cases hstep
        exact .failed
  | watch =>
    simp only [Watch.step] at hstep
    split at hstep
    · cases hstep
    · next opening =>
      cases hstep
      exact .watched (by simpa using opening)
  | deliver n header =>
    simp only [Watch.step] at hstep
    split at hstep
    · next next watching =>
      split at hstep
      · cases hstep
      · cases hstep
        exact .delivered watching
    · cases hstep
  | errorResponse =>
    simp only [Watch.step] at hstep
    split at hstep
    · cases hstep
      exact .ignored
    · cases hstep
  | interrupt =>
    simp only [Watch.step] at hstep
    split at hstep
    · cases hstep
      exact .left (.inl rfl) fun _ => rfl
    · cases hstep
  | pause cancelled =>
    simp only [Watch.step] at hstep
    split at hstep
    · cases hstep
    · cases hstep
      cases cancelled with
      | true => exact .left (.inr (.inr rfl)) fun _ => rfl
      | false => exact .left (.inr (.inl rfl)) fun _ => rfl

theorem stored {s : Watch} (h : watchInt.Reachable s) : Stored s := by
  refine h.invariant (I := Stored) ?_ ?_
  · intro s₀ called
    exact ⟨called.started, called.ordered, called.written⟩
  · intro s e t _ ih hstep
    cases step_took hstep with
    | wrote change _ => exact ih.write change
    | fetched | failed | watched | delivered | ignored | left =>
      exact ⟨ih.started, ih.ordered, ih.written⟩

/-- A write is past every revision the store has had. -/
theorem asOf_write (s : Watch) (change : Option (Option String)) {version : Nat}
    (le : version ≤ s.revision + 1) :
    asOf (s.write change).events version = asOf s.events version := by
  cases change with
  | none => rfl
  | some value => exact asOf_cons le s.events

/-- A write is past everything the loop has come to. -/
theorem Reached.write {s : Watch} (h : Reached s s.phase) (change : Option (Option String)) :
    Reached (s.write change) s.phase := by
  cases phase : s.phase with
  | opening =>
    rw [phase] at h
    intro positive
    obtain ⟨le, shown⟩ := h positive
    refine ⟨Nat.le_succ_of_le le, ?_⟩
    rw [show (s.write change).rev = s.rev from rfl, asOf_write s change (by omega)]
    exact shown
  | watching next =>
    rw [phase] at h
    obtain ⟨le, shown⟩ := h
    refine ⟨Nat.le_succ_of_le le, ?_⟩
    rw [asOf_write s change le]
    exact shown
  | fetching | pausing | stopped => exact trivial

/-- The revision after a batch is one the store has reached. -/
theorem Stored.following_le {s : Watch} (h : Stored s) {next start : Nat}
    (le : start ≤ s.revision + 1) (n : Nat) :
    following ((pending s.events next).take n) start ≤ s.revision + 1 := by
  unfold following
  cases last : ((pending s.events next).take n).getLast? with
  | none => exact le
  | some c =>
    have taken := List.mem_of_mem_take (List.mem_of_getLast? last)
    have mem := (List.mem_filter.mp (List.mem_reverse.mp taken)).1
    exact Nat.succ_le_succ (h.written c mem)

/-! ## The account -/

/-- What the account says of the loop: before a watch is opened, `rev` is 0 exactly if the last read
failed, and the limit always shows the key as of the revision that was seen. -/
structure Accounts (s : Watch) (a : Account) : Prop where
  failed : s.phase = .opening → (s.rev = 0 ↔ a.failed = true)
  seen : a.seen ≤ s.revision + 1
  shown : Shows s.limit (asOf s.events a.seen)

/-- A change that was seen is shown. -/
theorem Accounts.current {s : Watch} {a : Account} (h : Accounts s a)
    (last : ∀ c, s.events.head? = some c → Applicable c → c.version < a.seen) : Current s := by
  intro raw n value parsed positive
  obtain ⟨c, head, put⟩ := Option.bind_eq_some_iff.mp value
  have seen := last c head ⟨raw, n, put, parsed, positive⟩
  refine h.shown raw n ?_ parsed positive
  obtain ⟨rest, events⟩ := List.head?_eq_some_iff.mp head
  rw [events, asOf, List.find?_cons_of_pos (by simpa using seen)]
  exact put

theorem accounts_step {s t : Watch} {a : Account} {e : Step} (store : Stored s)
    (h : Accounts s a) (hstep : s.step e = some t) : Accounts t (a.after s e) := by
  cases step_took hstep with
  | wrote change unread =>
    rw [unread]
    refine ⟨h.failed, Nat.le_succ_of_le h.seen, ?_⟩
    rw [asOf_write s change h.seen]
    exact h.shown
  | fetched =>
    refine ⟨fun _ => ?_, Nat.le_refl _, ?_⟩
    · have := store.started
      simp only [Account.after, Bool.false_eq_true, iff_false]
      omega
    · show Shows _ (asOf s.events (s.revision + 1))
      rw [store.asOf_revision]
      exact shows_fetch s
  | failed => exact ⟨fun _ => by simp [Account.after], h.seen, h.shown⟩
  | watched opening =>
    refine ⟨fun opening' => ?_, h.seen, h.shown⟩
    cases opening'
  | @delivered n _ next _ watching =>
    simp only [Account.after, watching]
    refine ⟨fun opening => (by cases opening), store.following_le h.seen n, ?_⟩
    -- the last of the batch is what is shown, wherever the watch was opened
    cases last : ((pending s.events next).take n).getLast? with
    | none =>
      rw [List.getLast?_eq_none_iff.mp last]
      exact h.shown
    | some c =>
      have same : following ((pending s.events next).take n) a.seen =
          following ((pending s.events next).take n) next := by simp [following, last]
      show Shows _ (asOf s.events (following ((pending s.events next).take n) a.seen))
      rw [same, asOf_following store.ordered last]
      exact shows_batch s.limit last
  | ignored => exact h
  | left outside unread =>
    rw [unread]
    refine ⟨?_, h.seen, h.shown⟩
    intro opening
    rcases outside with rfl | rfl | rfl <;> cases opening

/-- Every run has its account. -/
theorem watchInt_accounted {s : Watch} (h : watchInt.Reachable s) :
    ∃ a, accounted.Reachable (s, a) :=
  h.observed

theorem accounts {x : Watch × Account} (h : accounted.Reachable x) : Accounts x.1 x.2 := by
  refine h.invariant (I := fun x => Accounts x.1 x.2) ?_ ?_
  · rintro ⟨s, _⟩ ⟨called, rfl⟩
    refine ⟨fun opening => ?_, Nat.zero_le _, ?_⟩
    · rw [called.phase] at opening
      cases opening
    · have unseen : asOf s.events 0 = none := by simp [asOf]
      rw [unseen]
      intro raw n value
      cases value
  · intro x e y reach ih step
    obtain ⟨taken, noted⟩ := System.observed_step step
    rw [noted]
    exact accounts_step (stored reach.of_observed) ih taken

/-! ## What is delivered -/

/-- One admitted step brings the loop where it then stands. -/
theorem reached_step {s t : Watch} {a : Account} {e : Step} (store : Stored s)
    (account : Accounts s a) (h : Reached s s.phase) (admitted : Admitted (s, a) e)
    (hstep : s.step e = some t) :
    Reached t t.phase := by
  cases step_took hstep with
  | wrote change _ => exact h.write change
  | fetched =>
    refine fun _ => ⟨Nat.le_refl _, ?_⟩
    show Shows _ (asOf s.events (s.revision + 1))
    rw [store.asOf_revision]
    exact shows_fetch s
  | failed => exact fun positive => absurd positive (Nat.lt_irrefl 0)
  | watched opening =>
    rw [opening] at h
    by_cases positive : s.rev > 0
    · simp only [positive, if_true]
      obtain ⟨le, shown⟩ := h positive
      exact ⟨Nat.succ_le_succ le, shown⟩
    · simp only [positive, if_false]
      refine ⟨Nat.le_refl _, ?_⟩
      show Shows s.limit (asOf s.events (s.revision + 1))
      rw [store.asOf_revision]
      have failed : a.failed = true := (account.failed opening).mp (by omega)
      exact account.current (admitted rfl failed)
  | @delivered n _ _ _ watching =>
    rw [watching] at h
    obtain ⟨le, shown⟩ := h
    refine ⟨store.following_le le n, ?_⟩
    exact asOf_batch (fun limit _ c _ => shows_apply limit c) store.ordered n shown
  | ignored => exact h
  | left outside _ => rcases outside with rfl | rfl | rfl <;> exact trivial

theorem reached {x : Watch × Account} (h : (accounted.restrict Admitted).Reachable x) :
    Reached x.1 x.1.phase := by
  refine h.invariant (I := fun x => Reached x.1 x.1.phase) ?_ ?_
  · rintro x ⟨called, _⟩
    rw [called.phase]
    exact trivial
  · rintro x e y reach ih ⟨admitted, step⟩
    have account := accounts reach.of_restrict
    have store := stored reach.of_restrict.of_observed
    exact reached_step store account ih admitted (System.observed_step step).1

/-- **No update is lost, unless a watch is opened after a failed read while the last put of the key
is neither read nor delivered.** In every state of a run without such an opening: when a watch is
established and has delivered every event up to the store's revision, the limit is the key's value,
if that is a positive number. And such an opening, in any run, leaves an established watch with
nothing to deliver, and the limit is then the number that was put only if it was this number before
the put was lost. -/
theorem watch_loses_nothing {x : Watch × Account} :
    ((accounted.restrict Admitted).Reachable x → Delivered x.1 → Current x.1) ∧
    (accounted.Reachable x → ∀ t, x.1.step .watch = some t → ¬ Admitted x .watch →
      Delivered t ∧ ∃ raw n, t.current = some raw ∧ parseInt (trimSpace raw) = some n ∧ 0 < n ∧
        (Current t ↔ x.1.limit = n)) := by
  refine ⟨?_, ?_⟩
  · rintro reach ⟨next, phase, past⟩
    have here := reached reach
    rw [phase] at here
    have shown := here.2
    rwa [asOf_all past] at shown
  · intro reach t hstep refused
    obtain ⟨s, a⟩ := x
    have store := stored reach.of_observed
    -- the step is enabled, and it is refused for the put that is lost
    simp only [Admitted, true_imp_iff, Classical.not_imp, not_forall] at refused
    obtain ⟨failed, c, head, ⟨raw, n, put, parsed, positive⟩, _⟩ := refused
    have current : s.current = some raw := Option.bind_eq_some_iff.mpr ⟨c, head, put⟩
    by_cases opening : s.phase = .opening
    · have forgot : s.rev = 0 := ((accounts reach).failed opening).mpr failed
      simp only [Watch.step, opening, forgot, ne_eq, not_true_eq_false, gt_iff_lt,
        Nat.lt_irrefl, if_false,
        Option.some.injEq] at hstep
      subst hstep
      refine ⟨⟨s.revision + 1, rfl, fun c mem => Nat.lt_succ_of_le (store.written c mem)⟩,
        raw, n, current, parsed, positive, fun shown => shown raw n current parsed positive, ?_⟩
      rintro equal raw' n' current' parsed' _
      cases current.symm.trans current'
      cases parsed.symm.trans parsed'
      exact equal
    · simp only [Watch.step, opening, ne_eq, not_false_eq_true, if_true] at hstep
      cases hstep

/-! ## Runs -/

/-- A key at 5, and a limit of 100. -/
def beforeWatch : Watch := ⟨7, [⟨4, some "5"⟩], .fetching, 0, 100⟩

theorem called_beforeWatch : Called beforeWatch where
  started := by decide
  ordered := List.pairwise_singleton _ _
  written := by decide
  phase := rfl

/-- The key is read, watched and changed, and the change delivered; the watch breaks, the key
changes again, is read again and watched. -/
def followed : List Step :=
  [.fetch true, .watch, .put " 30 ", .other, .deliver 1 9, .interrupt, .put "8", .pause false,
    .fetch true, .watch, .other, .deliver 0 11]

theorem watch_loses_nothing_followed :
    ∃ x, (accounted.restrict Admitted).Reachable x ∧ Delivered x.1 ∧ x.1.limit = 8 ∧
    Current x.1 := by
  have replayed : ∃ x, System.replay
      (fun (x : Watch × Account) e => if e ≠ .watch ∨ x.2.failed = false then
        (x.1.step e).map fun t => (t, x.2.after x.1 e) else none)
      (beforeWatch, ⟨false, 0⟩) followed = some x ∧
      x.1.phase = .watching 11 ∧ (∀ c ∈ x.1.events, c.version < 11) ∧ x.1.limit = 8 :=
        ⟨_, rfl, by decide⟩
  obtain ⟨x, run, phase, past, limit⟩ := replayed
  have admitted : ∀ (x : Watch × Account) (e : Step),
      decide (e ≠ .watch ∨ x.2.failed = false) = true → Admitted x e := by
    intro x e checked opens failed
    simp [opens, failed] at checked
  have reach : (accounted.restrict Admitted).Reachable x :=
    ⟨_, ⟨called_beforeWatch, rfl⟩, System.Runs.of_checked admitted (by simpa using run)⟩
  have delivered : Delivered x.1 := ⟨11, phase, past⟩
  exact ⟨x, reach, delivered, limit, watch_loses_nothing.1 reach delivered⟩

/-- As before, but the second read fails. -/
def forgotten : List Step :=
  [.fetch true, .watch, .put " 30 ", .other, .deliver 1 9, .interrupt, .put "8", .pause false,
    .fetch false, .watch, .other, .deliver 0 11]

/-- **An update is lost.** The watch is established and has delivered every event up to the store's
revision; the key is at 8, and the limit still at 30. -/
theorem watch_loses_update :
    ∃ s, watchInt.Reachable s ∧ Delivered s ∧ s.current = some "8" ∧
      parseInt (trimSpace "8") = some 8 ∧ s.limit = 30 := by
  have replayed : ∃ s, System.replay Watch.step beforeWatch forgotten = some s ∧
      s.phase = .watching 11 ∧ (∀ c ∈ s.events, c.version < 11) ∧ s.current = some "8" ∧
      s.limit = 30 := ⟨_, rfl, by decide⟩
  obtain ⟨s, hs, phase, past, current, limit⟩ := replayed
  exact ⟨s, ⟨beforeWatch, called_beforeWatch, System.Runs.of_replay hs⟩, ⟨11, phase, past⟩, current,
    by decide, limit⟩

end OtusApp.Coord
