import OtusApp.Cstore.Cluster
import OtusApp.Laws.Consumer.Projections

/-!
# What a quorum reads

A `Save` that returned `nil` has left its event with enough replicas of both rows, and they keep it;
what the replicas hold carries the events of the runs and nothing else. So a read that overlaps with
the write finds the event, from then on and whichever replicas answer (`saved_is_read`). Once all
attempts have come through, both tables show the same on every replica set (`views_converge`).
-/

namespace OtusApp.Cstore

open Messaging Program Transition Projection Replicas

variable {n : Nat} {writes reads : Consistency} {s t : Cluster}

/-! ## What the replicas hold -/

/-- What was there stays there. -/
structure Kept (s t : Cluster) : Prop where
  runs : s.runs ⊆ t.runs
  attempts : s.attempts ⊆ t.attempts
  held : ∀ table, s.held table ⊆ t.held table

theorem Kept.refl (s : Cluster) : Kept s s := ⟨.refl _, .refl _, fun _ => .refl _⟩

theorem Kept.trans {u : Cluster} (h : Kept s t) (h' : Kept t u) : Kept s u :=
  ⟨List.Subset.trans h.runs h'.runs, List.Subset.trans h.attempts h'.attempts,
    fun table => List.Subset.trans (h.held table) (h'.held table)⟩

/-- An attempt that has succeeded stays so. -/
theorem Kept.acked (h : Kept s t) {a : Attempt} (acked : s.Acked n writes a) : t.Acked n writes a :=
  fun table mem => (acked table mem).mono (h.held table)

/-- What the replicas hold was attempted, and each attempt is that of a run. -/
structure Sent (s : Cluster) : Prop where
  held : ∀ table x, x ∈ s.held table → x.2 ∈ s.attempts
  attempts : ∀ a ∈ s.attempts, ∃ cfg, (cfg, a.event) ∈ s.runs ∧ a.producer = cfg.broker

theorem respond_same {caller : Nat × Config × MessageCreated} {x : Write} {c : Option Nat}
    {ok : Bool} (h : (machine n writes).respond s caller x c = some (ok, t)) : t = s := by
  cases x with
  | document doc => cases c <;> cases h <;> rfl
  | batch ev producer =>
    cases c with
    | none =>
      cases h
      rfl
    | some k =>
      obtain ⟨a, _, answers⟩ := Option.bind_eq_some_iff.mp h
      obtain ⟨_, ⟨⟩⟩ := Option.ite_none_right_eq_some.mp answers
      rfl

theorem held_apply (s : Cluster) (table other : Table) (a : Attempt) (replica : Nat) :
    (s.apply table a replica).held other = if other = table then (replica, a) :: s.held table
      else s.held other := by
  by_cases same : other = table
  · subst same
    simp [Cluster.apply]
  · simp [Cluster.apply, same]

/-- What becomes of the cluster keeps what is there, and adds only what was sent. -/
theorem background_kept {b : Background} (h : background n s b = some t) :
    Kept s t ∧ (Sent s → Sent t) := by
  cases b with
  | attempt run stamp =>
    obtain ⟨q, found, answers⟩ := Option.bind_eq_some_iff.mp h
    obtain ⟨_, ⟨⟩⟩ := Option.ite_none_right_eq_some.mp answers
    refine ⟨⟨.refl _, List.subset_append_left _ _, fun _ => .refl _⟩, fun sent => ⟨?_, ?_⟩⟩
    · exact fun table x mem => List.mem_append_left _ (sent.held table x mem)
    · intro a mem
      rcases List.mem_append.mp mem with old | new
      · exact sent.attempts a old
      · obtain rfl := List.mem_singleton.mp new
        exact ⟨q.1, List.mem_of_getElem? found, rfl⟩
  | apply table k replica =>
    obtain ⟨a, found, answers⟩ := Option.bind_eq_some_iff.mp h
    obtain ⟨_, ⟨⟩⟩ := Option.ite_none_right_eq_some.mp answers
    refine ⟨⟨.refl _, .refl _, fun other => ?_⟩, fun sent => ⟨fun other x mem => ?_, sent.attempts⟩⟩
    · rw [held_apply]
      split
      · next same => exact same ▸ List.subset_cons_self _ _
      · exact .refl _
    · rw [held_apply] at mem
      split at mem
      · rcases List.mem_cons.mp mem with rfl | old
        · exact List.mem_of_getElem? found
        · exact sent.held table x old
      · exact sent.held other x mem

theorem step_kept {w w' : State} {mv : Move (Config × MessageCreated) (Option Nat) Background}
    (h : (machine n writes).step w mv = some w') :
    Kept w.env w'.env ∧ (Sent w.env → Sent w'.env) := by
  cases Machine.stepped h with
  | arrive taken =>
    cases taken
    refine ⟨⟨List.subset_append_left _ _, .refl _, fun _ => .refl _⟩, fun sent =>
      ⟨sent.held, fun a mem => ?_⟩⟩
    obtain ⟨cfg, run, is⟩ := sent.attempts a mem
    exact ⟨cfg, List.mem_append_left _ run, is⟩
  | go runs answers =>
    rw [respond_same answers]
    exact ⟨.refl _, id⟩
  | background moves => exact background_kept moves

theorem sent {w : State} (h : (cluster n writes).Reachable w) : Sent w.env := by
  refine h.invariant (I := fun w => Sent w.env) ?_ fun w mv w' _ ih step => (step_kept step).2 ih
  rintro w ⟨start, _⟩
  rw [start]
  exact ⟨fun _ _ mem => (List.not_mem_nil mem).elim, fun _ mem => (List.not_mem_nil mem).elim⟩

/-- The event has come through. -/
def Acknowledged (n : Nat) (writes : Consistency) (s : Cluster) (ev : MessageCreated) : Prop :=
  ∃ a, a.event = ev ∧ s.Acked n writes a

theorem handleIndex_acknowledged {i : Nat} {cfg : Config} {ev : MessageCreated}
    (first : cfg.events = true → Acknowledged n writes s ev) :
    (handleIndex cfg ev).Safe Kept ((machine n writes).answersIn (fun _ => True) (i, (cfg, ev)))
      (fun ok t => ok = true → cfg.events = true → Acknowledged n writes t ev) s := by
  rw [handleIndex]
  split
  · rintro s₁ kept ok s₂ ⟨_, c, answers⟩ _ on
    obtain ⟨a, is, acked⟩ := first on
    rw [respond_same answers]
    exact ⟨a, is, kept.acked acked⟩
  · exact fun _ => first

theorem handle_acknowledged (i : Nat) (cfg : Config) (ev : MessageCreated) (s : Cluster) :
    (handle cfg ev).Safe Kept ((machine n writes).answersIn (fun _ => True) (i, (cfg, ev)))
      (fun ok t => ok = true → cfg.events = true → Acknowledged n writes t ev) s := by
  rw [handle]
  split
  · rintro s₁ _ ok s₂ ⟨_, c, answers⟩
    cases ok with
    | false => exact Bool.noConfusion
    | true =>
      refine handleIndex_acknowledged fun _ => ?_
      rw [respond_same answers]
      cases c with
      | none => cases answers
      | some k =>
        obtain ⟨a, _, found⟩ := Option.bind_eq_some_iff.mp answers
        obtain ⟨⟨is, _, acked⟩, _⟩ := Option.ite_none_right_eq_some.mp found
        exact ⟨a, is, acked⟩
  · next off => exact handleIndex_acknowledged fun on => absurd on off

/-- A run that returned `nil` has brought its event through. -/
theorem acknowledged {w : State} (h : (cluster n writes).Reachable w) {cfg : Config}
    {ev : MessageCreated} (returned : ((cfg, ev), .ret true) ∈ w.procs) (on : cfg.events = true) :
    Acknowledged n writes w.env ev := by
  obtain ⟨i, runs⟩ := List.getElem?_of_mem returned
  refine Machine.safe (fun _ => True) Kept (fun q ok t => ok = true → q.1.events = true →
    Acknowledged n writes t q.2)
    (fun _ _ => trivial) Kept.refl (fun _ _ _ => Kept.trans)
      (fun _ _ _ _ step => (step_kept step).1) ?_ ?_ h i (cfg, ev)
    (.ret true) runs rfl on
  · intro q ok s t post kept returned on
    obtain ⟨a, is, acked⟩ := post returned on
    exact ⟨a, is, kept.acked acked⟩
  · intro i q s t _ taken
    cases taken
    exact handle_acknowledged i q.1 q.2 _

/-! ## What a row shows -/

/-- How an event is read: its time in whole milliseconds. -/
def seen (ev : MessageCreated) (producer : String) : Event :=
  ⟨ev.id, ev.text, ev.checksum, producer, Timestamp.time (timestamp ev.createdAt)⟩

section Rows

variable {rows rows' : List Attempt} {ev : MessageCreated}

theorem column_mem {α : Type} [LinearOrder α] {f : Attempt → α} (nonempty : rows ≠ []) :
    ∃ a ∈ rows, column f rows = some (f a) := by
  obtain ⟨time, value, found⟩ := newest_isSome Attempt.stamp f nonempty
  obtain ⟨a, mem, _, is⟩ := (newest_spec found).written
  exact ⟨a, mem, by simp [column, found, is]⟩

/-- Where all writes agree, so does the column. -/
theorem column_agree {α : Type} [LinearOrder α] {f : MessageCreated → α} (nonempty : rows ≠ [])
    (agree : ∀ a ∈ rows, a.event = ev) : column (fun a => f a.event) rows = some (f ev) := by
  obtain ⟨a, mem, is⟩ := column_mem (f := fun a => f a.event) nonempty
  rw [is, agree a mem]

theorem column_congr {α : Type} [LinearOrder α] (f : Attempt → α)
    (same : ∀ a, a ∈ rows ↔ a ∈ rows') :
    column f rows = column f rows' := by
  rw [column, column, newest_congr same]

/-- The row of an event in `message_events`. -/
theorem feedEvent_seen (nonempty : ∃ a ∈ rows, a.event = ev)
    (agree : ∀ a ∈ rows, a.event.id = ev.id → a.event = ev) :
    ∃ producer, feedEvent rows (timestamp ev.createdAt, ev.id) = some (seen ev producer) ∧
      column Attempt.producer (rows.filter fun a =>
        a.clustering = (timestamp ev.createdAt, ev.id)) = some producer := by
  have one : ∀ a ∈ rows.filter (fun a => a.clustering = (timestamp ev.createdAt, ev.id)),
      a.event = ev := by
    intro a mem
    simp only [List.mem_filter, decide_eq_true_eq] at mem
    exact agree a mem.1 (congrArg Prod.snd mem.2)
  have there : rows.filter (fun a => a.clustering = (timestamp ev.createdAt, ev.id)) ≠ [] := by
    obtain ⟨a, mem, is⟩ := nonempty
    exact List.ne_nil_of_mem (List.mem_filter.mpr ⟨mem, by simp [Attempt.clustering, is]⟩)
  obtain ⟨a, _, produced⟩ := column_mem (f := Attempt.producer) there
  refine ⟨a.producer, ?_, produced⟩
  simp only [feedEvent, column_agree (f := MessageCreated.text) there one,
    column_agree (f := MessageCreated.checksum) there one,
    produced]
  rfl

end Rows

/-- The row of an event in `events_by_id`. -/
theorem byID_seen {q : Finset Nat} {ev : MessageCreated}
    (nonempty : ∃ a ∈ merged (s.held .eventsById) q, a.event = ev)
    (agree : ∀ a ∈ merged (s.held .eventsById) q, a.event.id = ev.id → a.event = ev) :
    ∃ producer, s.byID q ev.id = some (seen ev producer) ∧
      column Attempt.producer ((merged (s.held .eventsById) q).filter fun a => a.event.id = ev.id) =
        some producer := by
  have one : ∀ a ∈ (merged (s.held .eventsById) q).filter (fun a => a.event.id = ev.id),
      a.event = ev := by
    intro a mem
    simp only [List.mem_filter, decide_eq_true_eq] at mem
    exact agree a mem.1 mem.2
  have there : (merged (s.held .eventsById) q).filter (fun a => a.event.id = ev.id) ≠ [] := by
    obtain ⟨a, mem, is⟩ := nonempty
    exact List.ne_nil_of_mem (List.mem_filter.mpr ⟨mem, by simp [is]⟩)
  obtain ⟨a, _, produced⟩ := column_mem (f := Attempt.producer) there
  refine ⟨a.producer, ?_, produced⟩
  simp only [Cluster.byID, column_agree (f := MessageCreated.text) there one,
    column_agree (f := MessageCreated.checksum) there one, produced,
    column_agree (f := fun ev => timestamp ev.createdAt) there one]
  rfl

/-! ## A page of the feed -/

/-- The order of the feed: the newest first, and the greater identifier first among equally new
ones. -/
def Newer (x y : Int × Nat) : Prop := y.1 < x.1 ∨ y.1 = x.1 ∧ y.2 < x.2

/-- The keys of a partition, in their order. -/
def keys (rows : List Attempt) : List (Timestamp × Nat) :=
  (rows.map Attempt.clustering).dedup.mergeSort before

theorem mem_keys {rows : List Attempt} {k : Timestamp × Nat} :
    k ∈ keys rows ↔ ∃ a ∈ rows, a.clustering = k := by
  simp [keys]

theorem keys_nodup (rows : List Attempt) : (keys rows).Nodup :=
  (List.mergeSort_perm _ _).nodup_iff.mpr (List.nodup_dedup _)

theorem keys_pairwise (rows : List Attempt) : (keys rows).Pairwise Newer := by
  have sorted : (keys rows).Pairwise fun x y => before x y := by
    refine List.pairwise_mergeSort ?_ ?_ _
    · intro x y z
      simp only [before, decide_eq_true_eq]
      omega
    · intro x y
      simp only [before, Bool.or_eq_true, decide_eq_true_eq]
      omega
  refine (sorted.and (keys_nodup rows)).imp ?_
  rintro ⟨ms, id⟩ ⟨ms', id'⟩ ⟨le, ne⟩
  simp only [before, decide_eq_true_eq] at le
  simp only [ne_eq, Prod.mk.injEq] at ne
  simp only [Newer]
  omega

/-- A page has the key, or is full of newer ones. -/
theorem page_cases {l : List (Timestamp × Nat)} (sorted : l.Pairwise Newer) {k : Timestamp × Nat}
    (mem : k ∈ l) (limit : Nat) :
    k ∈ l.take limit ∨ (l.take limit).length = limit ∧ ∀ x ∈ l.take limit, Newer x k := by
  rw [← List.take_append_drop limit l] at mem sorted
  rcases List.mem_append.mp mem with early | late
  · exact .inl early
  · refine .inr ⟨?_, fun x mem => (List.pairwise_append.mp sorted).2.2 x mem k late⟩
    have nonempty := List.length_pos_of_mem late
    simp only [List.length_drop] at nonempty
    simp only [List.length_take]
    omega

theorem keys_congr {rows rows' : List Attempt} (same : ∀ a, a ∈ rows ↔ a ∈ rows') :
    keys rows = keys rows' := by
  refine List.Perm.eq_of_pairwise ?_ (keys_pairwise rows) (keys_pairwise rows') ?_
  · intro x y _ _ newer older
    simp only [Newer] at newer older
    omega
  · refine (List.perm_ext_iff_of_nodup (keys_nodup rows) (keys_nodup rows')).mpr fun k => ?_
    simp only [mem_keys, same]

theorem feedEvent_congr {rows rows' : List Attempt} (same : ∀ a, a ∈ rows ↔ a ∈ rows') :
    feedEvent rows = feedEvent rows' := by
  funext key
  have row : ∀ a, (a ∈ rows.filter fun a => a.clustering = key) ↔ a ∈ rows'.filter fun a =>
      a.clustering = key := by
    simp [same]
  simp only [feedEvent, column_congr _ row]

/-- `Recent` is the first keys of the partition, with the row of each. -/
theorem recent_eq (s : Cluster) (q : Finset Nat) (today day : String) (limit : Nat) :
    s.recent q today day limit = ((keys (s.partition q (if day = "" then today else day))).take
      limit).filterMap
      (feedEvent (s.partition q (if day = "" then today else day))) :=
  rfl

/-! ## Quorums -/

/-- As many replicas answer as the level asks for. -/
structure Answers (n : Nat) (reads : Consistency) (q : Finset Nat) : Prop where
  replicas : q ⊆ Finset.range n
  enough : reads.acks n ≤ q.card

/-- The event is one that some run was given. -/
def Given (s : Cluster) (ev : MessageCreated) : Prop := ∃ cfg, (cfg, ev) ∈ s.runs

section Reads

variable {q q' : Finset Nat} {table : Table} {a : Attempt}

theorem Answers.finds (answers : Answers n reads q) (overlap : n < writes.acks n + reads.acks n)
    (acked : s.Acked n writes a) :
    a ∈ merged (s.held table) q := by
  have stored : Stored (s.held table) (Finset.range n) (writes.acks n) a :=
    acked table (by cases table <;> simp)
  refine stored.merged answers.replicas ?_
  have := answers.enough
  rw [Finset.card_range]
  omega

theorem Sent.attempted (h : Sent s) (mem : a ∈ merged (s.held table) q) : a ∈ s.attempts := by
  obtain ⟨r, _, held⟩ := mem_merged.mp mem
  exact h.held table _ held

theorem Sent.given (h : Sent s) (mem : a ∈ s.attempts) : Given s a.event := by
  obtain ⟨cfg, run, _⟩ := h.attempts a mem
  exact ⟨cfg, run⟩

/-- What the replicas hold under one identifier is one event. -/
theorem Sent.agree (h : Sent s) (identical : Identical (Given s)) {ev : MessageCreated}
    (isGiven : Given s ev) :
    ∀ a ∈ merged (s.held table) q, a.event.id = ev.id → a.event = ev :=
  fun a mem => identical a.event ev (h.given (h.attempted mem)) isGiven

theorem mem_partition {day : String} :
    a ∈ s.partition q day ↔ a ∈ merged (s.held .messageEvents) q ∧
    Cstore.day a.event.createdAt = day := by
  simp [Cluster.partition]

/-- The key of an attempt has the row of its event. -/
theorem Sent.shows (h : Sent s) (identical : Identical (Given s)) {day : String}
    (mem : a ∈ s.partition q day) :
    ∃ producer, feedEvent (s.partition q day) a.clustering = some (seen a.event producer) ∧
      column Attempt.producer ((s.partition q day).filter fun b => b.clustering = a.clustering) =
        some producer := by
  have isGiven := h.given (h.attempted (mem_partition.mp mem).1)
  have nonempty : ∃ b ∈ s.partition q day, b.event = a.event := ⟨a, mem, rfl⟩
  exact feedEvent_seen nonempty fun b mem => h.agree identical isGiven b (mem_partition.mp mem).1

/-- Each key of a partition has the row of an event. -/
theorem Sent.row (h : Sent s) (identical : Identical (Given s)) {day : String} {k : Timestamp × Nat}
    (mem : k ∈ keys (s.partition q day)) :
    ∃ ev producer, Given s ev ∧ Cstore.day ev.createdAt = day ∧
    k = (timestamp ev.createdAt, ev.id) ∧
      feedEvent (s.partition q day) k = some (seen ev producer) ∧
      column Attempt.producer ((s.partition q day).filter fun a => a.clustering = k) = some
        producer := by
  obtain ⟨a, there, rfl⟩ := mem_keys.mp mem
  obtain ⟨held, today⟩ := mem_partition.mp there
  obtain ⟨producer, shown_eq, produced⟩ := h.shows identical there
  exact ⟨a.event, producer, h.given (h.attempted held), today, rfl, shown_eq, produced⟩

end Reads

/-- Whole milliseconds keep the order. -/
theorem newer_time {k k' : Timestamp × Nat} (h : Newer k k') :
    Newer (Timestamp.time k.1, k.2) (Timestamp.time k'.1, k'.2) := by
  simp only [Newer, Timestamp.time] at h ⊢
  omega

/-- Without a setting, the levels of the two sides overlap. -/
theorem overlap_default (upper : String → String) (n : Nat) :
    n < (consistency upper "").acks n + (consistency upper "").acks n := by
  have default : consistency upper "" = .quorum := rfl
  simp only [default, Consistency.acks]
  omega

/-- **Read your writes.** Once a run has returned `nil`, in every later state and whichever replicas
answer, as long as the levels of the two sides overlap: `ByID` finds its event, and a page of its
day has it or is full of newer ones. -/
theorem saved_is_read {w : State} (h : (cluster n writes).Reachable w)
    (identical : Identical (Given w.env)) (overlap : n < writes.acks n + reads.acks n)
    {cfg : Config} {ev : MessageCreated} (returned : ((cfg, ev), .ret true) ∈ w.procs)
    (on : cfg.events = true) {q : Finset Nat} (answers : Answers n reads q) :
    (∃ producer, w.env.byID q ev.id = some (seen ev producer)) ∧
    ∀ today day limit, (if day = "" then today else day) = Cstore.day ev.createdAt →
      (∃ producer, seen ev producer ∈ w.env.recent q today day limit) ∨
      (w.env.recent q today day limit).length = limit ∧
        ∀ e ∈ w.env.recent q today day limit,
        Newer (e.createdAt, e.id) (Timestamp.time (timestamp ev.createdAt), ev.id) := by
  have sent := sent h
  obtain ⟨a, rfl, acked⟩ := acknowledged h returned on
  have found : ∀ table, a ∈ merged (w.env.held table) q := fun table => answers.finds overlap acked
  have isGiven := sent.given (sent.attempted (found .eventsById))
  constructor
  · obtain ⟨producer, shown_eq, _⟩ := byID_seen ⟨a, found _, rfl⟩ (sent.agree identical isGiven)
    exact ⟨producer, shown_eq⟩
  · intro today day limit is
    rw [recent_eq, is]
    have there : a ∈ w.env.partition q (Cstore.day a.event.createdAt) :=
      mem_partition.mpr ⟨found _, rfl⟩
    rcases page_cases (keys_pairwise _) (mem_keys.mpr ⟨a, there, rfl⟩) limit
      with shown | ⟨full, newer⟩
    · obtain ⟨producer, shown_eq, _⟩ := sent.shows identical there
      exact .inl ⟨producer, List.mem_filterMap.mpr ⟨_, shown, shown_eq⟩⟩
    · refine .inr ⟨?_, fun e mem => ?_⟩
      · rw [List.length_filterMap_eq_countP, List.countP_eq_length.mpr ?_, full]
        intro k mem
        obtain ⟨_, _, _, _, _, shown_eq, _⟩ := sent.row identical (List.mem_of_mem_take mem)
        simp [shown_eq]
      · obtain ⟨k, page, shown_eq⟩ := List.mem_filterMap.mp mem
        obtain ⟨ev', producer, _, _, rfl, is, _⟩ := sent.row identical (List.mem_of_mem_take page)
        cases shown_eq.symm.trans is
        exact newer_time (newer _ page)

/-- An event of the first day. -/
def firstEvent : MessageCreated := ⟨7, "a", "b", 5000, "c"⟩

/-- The third replica is down while the event is saved. -/
def oneDown : List (Move (Config × MessageCreated) (Option Nat) Background) :=
  [.arrive (bothStores "kafka", firstEvent), .background (.attempt 0 5),
    .background (.apply .messageEvents 0 0),
    .background (.apply .messageEvents 0 1), .background (.apply .eventsById 0 0),
    .background (.apply .eventsById 0 1),
    .go 0 (some 0), .go 0 (some 0)]

/-- The third replica and one of the others answer. -/
theorem saved_is_read_oneDown :
    ∃ w, (cluster 3 .quorum).Reachable w ∧ (∀ table, ∀ x ∈ w.env.held table, x.1 ≠ 2) ∧
    ∃ producer, w.env.byID {1, 2} 7 = some (seen firstEvent producer) := by
  have replayed : ∃ w, System.replay (machine 3 .quorum).step ⟨created, [], []⟩ oneDown = some w ∧
      w.procs = [((bothStores "kafka", firstEvent), .ret true)] ∧
      w.env.runs = [(bothStores "kafka", firstEvent)] ∧
      w.env.held .messageEvents = [(1, ⟨5, firstEvent, "kafka"⟩), (0, ⟨5, firstEvent, "kafka"⟩)] ∧
      w.env.held .eventsById = [(1, ⟨5, firstEvent, "kafka"⟩), (0, ⟨5, firstEvent, "kafka"⟩)] :=
        ⟨_, rfl, rfl, rfl, rfl, rfl⟩
  obtain ⟨w, run, procs, runs, feed, byId⟩ := replayed
  have reached : (cluster 3 .quorum).Reachable w := ⟨_, ⟨rfl, rfl, rfl⟩, System.Runs.of_replay run⟩
  have identical : Identical (Given w.env) := by
    rintro ev ev' ⟨cfg, mem⟩ ⟨cfg', mem'⟩ _
    simp only [runs, List.mem_singleton, Prod.mk.injEq] at mem mem'
    rw [mem.2, mem'.2]
  have answers : Answers 3 .quorum {1, 2} := ⟨by decide, by decide⟩
  have returned : ((bothStores "kafka", firstEvent), .ret true) ∈ w.procs := by simp [procs]
  refine ⟨w, reached, ?_,
    (saved_is_read reached identical (overlap_default id 3) returned rfl answers).1⟩
  intro table x mem
  cases table with
  | messageEvents =>
    simp only [feed, List.mem_cons, List.not_mem_nil, or_false] at mem
    rcases mem with rfl | rfl <;> decide
  | eventsById =>
    simp only [byId, List.mem_cons, List.not_mem_nil, or_false] at mem
    rcases mem with rfl | rfl <;> decide

/-- **The views converge.** Once every attempt has come through, all replica sets that may answer
show the same: `ByID` finds the same row, `Recent` the same page, in strictly descending order, and
each event of a page is the one that `ByID` finds under its identifier, its producer included. -/
theorem views_converge {w : State} (h : (cluster n writes).Reachable w)
    (identical : Identical (Given w.env)) (overlap : n < writes.acks n + reads.acks n)
    (settled : ∀ a ∈ w.env.attempts, w.env.Acked n writes a) {q q' : Finset Nat}
    (answers : Answers n reads q) (answers' : Answers n reads q') :
    (∀ id, w.env.byID q id = w.env.byID q' id) ∧
    ∀ today day limit, w.env.recent q today day limit = w.env.recent q' today day limit ∧
      ((w.env.recent q today day limit).Pairwise fun e e' =>
        Newer (e.createdAt, e.id) (e'.createdAt, e'.id)) ∧
      ∀ e ∈ w.env.recent q today day limit, w.env.byID q' e.id = some e := by
  have sent := sent h
  have all : ∀ {q}, Answers n reads q → ∀ table a, a ∈ merged (w.env.held table) q ↔
    a ∈ w.env.attempts := fun answers table a =>
    ⟨sent.attempted, fun mem => answers.finds overlap (settled a mem)⟩
  refine ⟨fun id => ?_, fun today day limit => ⟨?_, ?_, fun e mem => ?_⟩⟩
  · have row : ∀ a, (a ∈ (merged (w.env.held .eventsById) q).filter fun a => a.event.id = id) ↔
        a ∈ (merged (w.env.held .eventsById) q').filter fun a => a.event.id = id := by
      simp [all answers, all answers']
    simp only [Cluster.byID, column_congr _ row]
  · have same : ∀ day a, a ∈ w.env.partition q day ↔ a ∈ w.env.partition q' day := by
      simp [mem_partition, all answers, all answers']
    rw [recent_eq, recent_eq, keys_congr (same _), feedEvent_congr (same _)]
  · rw [recent_eq, List.pairwise_filterMap]
    refine ((keys_pairwise _).sublist (List.take_sublist limit _)).imp_of_mem ?_
    intro k k' mem mem' newer e is e' is'
    obtain ⟨ev, producer, _, _, rfl, shown_eq, _⟩ := sent.row identical (List.mem_of_mem_take mem)
    obtain ⟨ev', producer', _, _, rfl, shows', _⟩ := sent.row identical (List.mem_of_mem_take mem')
    cases is.symm.trans shown_eq
    cases is'.symm.trans shows'
    exact newer_time newer
  · rw [recent_eq] at mem
    obtain ⟨k, page, is⟩ := List.mem_filterMap.mp mem
    obtain ⟨ev, producer, isGiven, of_day, rfl, shown_eq, produced⟩ :=
      sent.row identical (List.mem_of_mem_take page)
    cases is.symm.trans shown_eq
    -- the two rows are those of the same attempts
    have one : ∀ a ∈ w.env.attempts, a.event.id = ev.id → a.event = ev := fun a mem =>
      identical a.event ev (sent.given mem) isGiven
    have row : ∀ a, (a ∈ (w.env.partition q (if day = "" then today else day)).filter fun a =>
        a.clustering = (timestamp ev.createdAt, ev.id)) ↔
        a ∈ (merged (w.env.held .eventsById) q').filter fun a => a.event.id = ev.id := by
      intro a
      simp only [List.mem_filter, mem_partition, all answers, all answers', decide_eq_true_eq]
      constructor
      · rintro ⟨⟨mem, _⟩, is⟩
        exact ⟨mem, congrArg Prod.snd is⟩
      · rintro ⟨mem, is⟩
        rw [Attempt.clustering, one a mem is]
        exact ⟨⟨mem, of_day⟩, rfl⟩
    obtain ⟨a, there, is⟩ := mem_keys.mp (List.mem_of_mem_take page)
    have attempted := sent.attempted (mem_partition.mp there).1
    have mine := one a attempted (congrArg Prod.snd is)
    obtain ⟨producer', found, produced'⟩ :=
      byID_seen ⟨a, (all answers' _ a).mpr attempted, mine⟩ (sent.agree identical isGiven)
    rw [column_congr Attempt.producer row, produced'] at produced
    cases produced
    exact found

/-- Consumers of two brokers save one event, through different replicas. -/
def twice : List (Move (Config × MessageCreated) (Option Nat) Background) :=
  [.arrive (bothStores "kafka", firstEvent), .arrive (bothStores "nats", firstEvent),
    .background (.attempt 0 5),
    .background (.attempt 1 3)] ++
    [(0, 0), (0, 1), (1, 1), (1, 2)].flatMap fun (k, r) =>
      [.background (.apply .messageEvents k r), .background (.apply .eventsById k r)]

theorem views_converge_twice : ∃ w, (cluster 3 .quorum).Reachable w ∧
    w.env.byID {1, 2} 7 = some (seen firstEvent "kafka") ∧
    w.env.byID {0, 2} 7 = w.env.byID {1, 2} 7 := by
  have replayed : ∃ w, System.replay (machine 3 .quorum).step ⟨created, [], []⟩ twice = some w ∧
      w.env.runs = [(bothStores "kafka", firstEvent), (bothStores "nats", firstEvent)] ∧
      w.env.attempts = [⟨5, firstEvent, "kafka"⟩, ⟨3, firstEvent, "nats"⟩] ∧
      (∀ a ∈ w.env.attempts, w.env.Acked 3 .quorum a) ∧
      w.env.byID {1, 2} 7 = some (seen firstEvent "kafka") :=
    ⟨_, rfl, rfl, rfl, by decide, by decide⟩
  obtain ⟨w, run, runs, attempts, settled, found⟩ := replayed
  have reached : (cluster 3 .quorum).Reachable w := ⟨_, ⟨rfl, rfl, rfl⟩, System.Runs.of_replay run⟩
  have identical : Identical (Given w.env) := by
    rintro ev ev' ⟨cfg, mem⟩ ⟨cfg', mem'⟩ _
    simp only [runs, List.mem_cons, List.not_mem_nil, or_false, Prod.mk.injEq] at mem mem'
    rcases mem with ⟨_, rfl⟩ | ⟨_, rfl⟩ <;> rcases mem' with ⟨_, rfl⟩ | ⟨_, rfl⟩ <;> rfl
  have answers : Answers 3 .quorum {0, 2} := ⟨by decide, by decide⟩
  have answers' : Answers 3 .quorum {1, 2} := ⟨by decide, by decide⟩
  exact ⟨w, reached, found,
    (views_converge reached identical (overlap_default id 3) settled answers answers').1 7⟩

end OtusApp.Cstore
