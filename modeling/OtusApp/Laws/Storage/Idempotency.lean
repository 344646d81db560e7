import OtusApp.Laws.Storage.Runs

/-!
# The idempotency key

A key that is not empty names at most one message, for ever: the unique index sees the committed
rows, and a pending one makes the next insert wait. Every successful call with the key answers
with that message, a call with another text is refused, and a repeated call adds neither a message
nor a job. A call without a key is outside all this: it never waits, is never refused, and each
success is a row of its own.

The premise on PostgreSQL is in the step: under READ COMMITTED an insert that meets the key of an
open transaction waits for it, and one that meets a committed key does nothing.
-/

namespace OtusApp.Storage

open Messaging Outbox Go Transition

variable {codec : EventCodec}

/-- What a call was told, read from its position. -/
theorem Call.result_ok {c : Call codec.Payload} {m : Message} (h : c.result = some (.ok m)) :
    c.phase = .finished (.ok m) := by
  unfold Call.result at h
  split at h
  · next r hp => rw [hp, Option.some.inj h]
  · cases h
  · cases h

/-- The row behind a successful answer. -/
theorem answered_of_ok {s : Database codec} (h : Consistent s) {c : Call codec.Payload}
    (hc : c ∈ s.calls) {m : Message} (ok : c.result = some (.ok m)) :
    ∃ row, c.Answered s.tables m row := by
  have position := (h.calls c hc).position
  rw [c.result_ok ok] at position
  exact position.2.2

/-- Committed rows under one key are one row. -/
theorem row_eq_of_key {s : Database codec} (h : Consistent s) {a b : MessageRow}
    (ha : a ∈ s.tables.messages) (hb : b ∈ s.tables.messages) {key : String}
    (hak : a.idemKey = some key) (hbk : b.idemKey = some key) : a = b :=
  h.distinct.eq_of_key (List.mem_append_left _ ha) (List.mem_append_left _ hb) hak hbk

/-- At most one committed row is under a key. -/
theorem one_row_per_key {s : Database codec} (h : Consistent s) (key : String) :
    s.tables.messages.countP (fun r => r.idemKey = some key) ≤ 1 := by
  refine Nat.le_trans ?_ (h.distinct.countP_key_le key)
  rw [written, List.countP_append]
  exact Nat.le_add_right _ _

/-- The job is for `target` and its message is under `key`. -/
def jobUnder (messages : List MessageRow) (key target : String) (o : OutboxRow codec.Payload) :
    Bool :=
  o.target = target ∧ messages.any fun r => r.id = o.messageId ∧ r.idemKey = some key

/-- At most one job for a target belongs to a message under a key. -/
theorem one_job_per_key {s : Database codec} (h : Consistent s) (key target : String) :
    s.tables.outbox.countP (jobUnder s.tables.messages key target) ≤ 1 := by
  by_cases found : ∃ o ∈ s.tables.outbox, jobUnder s.tables.messages key target o = true
  · obtain ⟨o, ho, under⟩ := found
    rw [← Rows.countP_key h.jobs ho]
    refine List.countP_mono_left fun o' _ under' => ?_
    -- both jobs are of the one message under the key, and for the same target
    simp only [jobUnder, decide_eq_true_eq, List.any_eq_true] at under under'
    obtain ⟨target₁, r, hr, id, key₁⟩ := under
    obtain ⟨target₂, r', hr', id', key₂⟩ := under'
    obtain rfl := row_eq_of_key h hr hr' key₁ key₂
    simp only [decide_eq_true_eq, OutboxRow.key, Prod.mk.injEq]
    exact ⟨id'.symm.trans id, target₂.trans target₁.symm⟩
  · have none : s.tables.outbox.countP (jobUnder s.tables.messages key target) = 0 :=
      List.countP_eq_zero.mpr fun o ho under => found ⟨o, ho, under⟩
    omega

/-- Two successes under one key answer with one message. -/
theorem same_answer {s : Database codec} (h : Consistent s) {c c' : Call codec.Payload}
    (hc : c ∈ s.calls) (hc' : c' ∈ s.calls) (key : c.key ≠ "") (same : c'.key = c.key)
    {m m' : Message} (ok : c.result = some (.ok m)) (ok' : c'.result = some (.ok m')) :
    m'.id = m.id ∧ m'.text = m.text ∧ m'.checksum = m.checksum := by
  obtain ⟨row, answered⟩ := answered_of_ok h hc ok
  obtain ⟨row', answered'⟩ := answered_of_ok h hc' ok'
  have under : row.idemKey = some c.key := answered.key.trans (nullIf_of_ne key)
  have under' : row'.idemKey = some c.key := by
    rw [answered'.key, same, nullIf_of_ne key]
  obtain rfl := row_eq_of_key h answered.stored answered'.stored under under'
  obtain ⟨id, text, sum⟩ := answered.same
  obtain ⟨id', text', sum'⟩ := answered'.same
  exact ⟨id'.trans id.symm, text'.trans text.symm, sum'.trans sum.symm⟩

/-! ## A key that stands for another text -/

/-- A valid call whose key is committed with another text. -/
structure Call.Conflicts (c : Call codec.Payload) (messages : List MessageRow) : Prop where
  valid : ¬ Blank c.text
  key : c.key ≠ ""
  stored : ∃ row ∈ messages, row.idemKey = some c.key ∧ row.text ≠ c.text

/-- No row under the key of such a call carries its text. -/
theorem Call.Conflicts.text_ne {s : Database codec} (h : Consistent s) {c : Call codec.Payload}
    (conflict : c.Conflicts s.tables.messages) {row : MessageRow}
    (written : row ∈ written s.tables.messages s.calls) (under : row.idemKey = nullIf c.key) :
    row.text ≠ c.text := by
  obtain ⟨other, stored, key, differs⟩ := conflict.stored
  have same : other = row := h.distinct.eq_of_key (List.mem_append_left _ stored) written key
    (under.trans (nullIf_of_ne conflict.key))
  rw [← same]
  exact differs

/-- It has committed nothing. -/
theorem Call.Conflicts.uncommitted {s : Database codec} (h : Consistent s)
    {c : Call codec.Payload} (hc : c ∈ s.calls) (conflict : c.Conflicts s.tables.messages) :
    c.committed = none := by
  cases done : c.committed with
  | none => rfl
  | some row =>
    have committed := (h.calls c hc).committed row done
    have text : row.text = c.text := by rw [committed.written]; rfl
    have under : row.idemKey = nullIf c.key := by rw [committed.written]; rfl
    exact absurd text (conflict.text_ne h (List.mem_append_left _ committed.stored) under)

/-- Where it can stand: in front of the insert, the select or the rollback, or refused. -/
theorem Call.Conflicts.phase {s : Database codec} (h : Consistent s) {c : Call codec.Payload}
    (hc : c ∈ s.calls) (conflict : c.Conflicts s.tables.messages) :
    c.phase = .inserting ∨ c.phase = .selecting ∨ (∃ err, c.phase = .aborting err) ∨
      c.phase = .finished (.error .idempotencyConflict) ∨
      c.phase = .finished (.error .database) := by
  have position := (h.calls c hc).position
  -- a pending row under the key would stand beside the committed one
  have writing : ∀ m payload rest, ¬ c.Writing m payload rest := by
    intro m payload rest w
    have mem : c.messageRow m.id ∈ written s.tables.messages s.calls :=
      List.mem_append_right _ (List.mem_filterMap.mpr ⟨c, hc, w.pending⟩)
    exact conflict.text_ne h mem rfl rfl
  have answered : ∀ m row, ¬ c.Answered s.tables m row := by
    intro m row a
    exact conflict.text_ne h (List.mem_append_left _ a.stored) a.key a.text
  cases hp : c.phase with
  | inserting => exact .inl rfl
  | selecting => exact .inr (.inl rfl)
  | aborting err => exact .inr (.inr (.inl ⟨err, rfl⟩))
  | replaying m =>
    rw [hp] at position
    obtain ⟨_, _, _, row, a⟩ := position
    exact absurd a (answered m row)
  | enqueueing m payload rest =>
    rw [hp] at position
    exact absurd position.1 (writing m payload rest)
  | inDoubt =>
    rw [hp] at position
    obtain ⟨⟨m, payload, w⟩, _⟩ := position
    exact absurd w (writing m payload [])
  | finished result =>
    rw [hp] at position
    cases result with
    | ok m =>
      obtain ⟨_, _, row, a⟩ := position
      exact absurd a (answered m row)
    | error err =>
      cases err with
      | emptyText => exact absurd (position.2.1 rfl) conflict.valid
      | idempotencyConflict => exact .inr (.inr (.inr (.inl rfl)))
      | database => exact .inr (.inr (.inr (.inr rfl)))

/-- What it can be told. -/
theorem Call.Conflicts.result {s : Database codec} (h : Consistent s) {c : Call codec.Payload}
    (hc : c ∈ s.calls) (conflict : c.Conflicts s.tables.messages) :
    c.result = none ∨ c.result = some (.error .idempotencyConflict) ∨
      c.result = some (.error .database) := by
  rcases conflict.phase h hc with hp | hp | ⟨err, hp⟩ | hp | hp
  · exact .inl (by simp only [Call.result, hp])
  · exact .inl (by simp only [Call.result, hp])
  · exact .inl (by simp only [Call.result, hp])
  · exact .inr (.inl (by simp only [Call.result, hp]))
  · exact .inr (.inr (by simp only [Call.result, hp]))

/-- Its statements leave both tables alone. -/
theorem Call.Conflicts.exec_tables {s : Database codec} (h : Consistent s)
    {c : Call codec.Payload} (hc : c ∈ s.calls) (conflict : c.Conflicts s.tables.messages)
    (answer : Answer) :
    (c.exec codec s.tables answer).1.messages = s.tables.messages ∧
      (c.exec codec s.tables answer).1.outbox = s.tables.outbox := by
  rcases Call.exec_tables c s.tables answer with ⟨messages, outbox, _⟩ | ⟨result, _, stage⟩
  · exact ⟨messages, outbox⟩
  · rcases conflict.phase h hc with hp | hp | ⟨err, hp⟩ | hp | hp
    all_goals simp [hp] at stage

/-- It never waits: no open transaction holds a key that is committed. -/
theorem Call.Conflicts.waits {s : Database codec} (h : Consistent s) {c : Call codec.Payload}
    (conflict : c.Conflicts s.tables.messages) (answer : Answer) :
    c.waits s.calls answer = false := by
  obtain ⟨row, stored, key, _⟩ := conflict.stored
  refine Bool.eq_false_iff.mpr fun waiting => ?_
  unfold Call.waits at waiting
  split at waiting
  · simp only [decide_eq_true_eq, List.any_eq_true, Option.any_eq_true] at waiting
    obtain ⟨_, other, mem, r, pending, under⟩ := waiting
    have inPending : r ∈ s.calls.filterMap Call.pending :=
      List.mem_filterMap.mpr ⟨other, mem, pending⟩
    obtain rfl : row = r := h.distinct.eq_of_key (List.mem_append_left _ stored)
      (List.mem_append_right _ inPending) key under
    exact h.pending_fresh mem pending (List.mem_map_of_mem stored)
  · cases waiting

/-- **A refused call returns**, whatever the database answers: its statements are never blocked,
and after the last of them it has been told of the conflict or of a database error. -/
theorem Call.Conflicts.returns {i : Nat} (answers : List Answer) :
    ∀ {s : Database codec} {c : Call codec.Payload}, Consistent s → s.calls[i]? = some c →
      c.Conflicts s.tables.messages → c.statementsLeft ≤ answers.length →
      ∃ t c', System.replay (step codec) s (answers.map (Event.exec i)) = some t ∧
        t.calls[i]? = some c' ∧
        (c'.result = some (.error .idempotencyConflict) ∨ c'.result = some (.error .database)) := by
  induction answers with
  | nil =>
    intro s c h hc conflict left
    refine ⟨s, c, rfl, hc, ?_⟩
    rcases conflict.phase h (List.mem_of_getElem? hc) with hp | hp | ⟨err, hp⟩ | hp | hp
    · simp [Call.statementsLeft, hp] at left
    · simp [Call.statementsLeft, hp] at left
    · simp [Call.statementsLeft, hp] at left
    · exact .inl (by simp only [Call.result, hp])
    · exact .inr (by simp only [Call.result, hp])
  | cons answer rest ih =>
    intro s c h hc conflict left
    have mem := List.mem_of_getElem? hc
    have hi : i < s.calls.length := (List.getElem?_eq_some_iff.mp hc).1
    obtain ⟨messages, _⟩ := conflict.exec_tables h mem answer
    obtain ⟨text, key, _⟩ := c.exec_arguments s.tables answer
    have hstep := step_exec_of hc (conflict.waits h answer)
    have conflict' : (c.exec codec s.tables answer).2.Conflicts
        (c.exec codec s.tables answer).1.messages := by
      refine ⟨by rw [text]; exact conflict.valid, by rw [key]; exact conflict.key, ?_⟩
      rw [text, key, messages]
      exact conflict.stored
    have bound : (c.exec codec s.tables answer).2.statementsLeft ≤ rest.length := by
      have decreases := c.exec_statementsLeft s.tables answer
      rw [List.length_cons] at left
      omega
    obtain ⟨t, c', replayed, hc', told⟩ := ih (consistent_step h hstep)
      (List.getElem?_set_self hi) conflict' bound
    refine ⟨t, c', ?_, hc', told⟩
    rw [List.map_cons, System.replay, hstep]
    exact replayed

/-- Its own steps leave both tables alone. -/
theorem Call.Conflicts.step_tables {s t : Database codec} (h : Consistent s) {i : Nat}
    {c : Call codec.Payload} (hc : s.calls[i]? = some c) (conflict : c.Conflicts s.tables.messages)
    {e : Event} (own : e.call = some i) (hstep : step codec s e = some t) :
    t.tables.messages = s.tables.messages ∧ t.tables.outbox = s.tables.outbox := by
  cases e with
  | exec j answer =>
    cases own
    obtain ⟨c', hc', _, rfl⟩ := step_exec hstep
    obtain rfl : c = c' := Option.some.inj (hc.symm.trans hc')
    exact conflict.exec_tables h (List.mem_of_getElem? hc) answer
  | crash j =>
    obtain ⟨c', _, rfl⟩ := step_crash hstep
    exact ⟨rfl, rfl⟩
  | tick | migrate | create | claim | complete | retry => cases own

/-- Without a database error it is told of the conflict. -/
theorem Call.Conflicts.told {s : Database codec} (h : Consistent s) {i : Nat}
    {c : Call codec.Payload} (hc : s.calls[i]? = some c) (conflict : c.Conflicts s.tables.messages)
    (begun : c.phase = .inserting) (room : s.tables.seq + 1 < 2 ^ 63) :
    ∃ t c', System.replay (step codec) s [.exec i .ok, .exec i .ok, .exec i .ok] = some t ∧
      t.calls[i]? = some c' ∧ c'.result = some (.error .idempotencyConflict) := by
  have hi : i < s.calls.length := (List.getElem?_eq_some_iff.mp hc).1
  have free := conflict.waits h .ok
  obtain ⟨row, stored, under, differs⟩ := conflict.stored
  have found : byKey s.tables.messages c.key = some row := by
    cases lookup : byKey s.tables.messages c.key with
    | none => exact absurd under (byKey_none lookup row stored)
    | some other =>
      obtain ⟨mem, key⟩ := byKey_some lookup
      rw [row_eq_of_key h stored mem under key]
  have inserted : c.exec codec s.tables .ok =
      ({ s.tables with seq := s.tables.seq + 1 }, { c with phase := .selecting }) := by
    have drawn : nextval s.tables.seq = some (s.tables.seq + 1) := if_pos room
    simp [Call.exec, begun, Call.insertMessage, drawn, conflict.key, found]
  refine ⟨{ s with
    tables := { s.tables with seq := s.tables.seq + 1 }
    calls := s.calls.set i (c.discard (.error .idempotencyConflict)) },
    c.discard (.error .idempotencyConflict), ?_, List.getElem?_set_self hi, rfl⟩
  rw [System.replay, step_exec_of hc free, inserted, Option.bind_some]
  simp only [System.replay, step, List.getElem?_set_self hi, List.set_set, Call.exec, Call.waits,
    Call.selectMessage, found, differs, ne_eq, not_false_eq_true, if_true, Bool.false_eq_true,
    if_false, Option.bind_some, Call.fail, Call.discard]

/-! ## No key -/

/-- A call without a key never waits. -/
theorem Call.waits_empty (c : Call codec.Payload) (key : c.key = "")
    (calls : List (Call codec.Payload)) (answer : Answer) : c.waits calls answer = false := by
  unfold Call.waits
  split
  · simp only [key, ne_eq, not_true_eq_false, false_and, decide_false]
  · rfl

/-- A call without a key is never told of a conflict. -/
theorem conflict_needs_key {s : Database codec} (h : Consistent s) {c : Call codec.Payload}
    (hc : c ∈ s.calls) (key : c.key = "") : c.result ≠ some (.error .idempotencyConflict) := by
  intro told
  have position := (h.calls c hc).position
  cases hp : c.phase with
  | finished result =>
    simp only [Call.result, hp, Option.some.injEq] at told
    rw [hp, told] at position
    exact position.2.2 rfl key
  | inDoubt => simp [Call.result, hp] at told
  | inserting | selecting | replaying | enqueueing | aborting => simp [Call.result, hp] at told

/-- A success without a key is a row of its own: the step that answers adds it to the table. -/
theorem success_without_key {s t : Database codec} (h : Consistent s) {e : Event} {i : Nat}
    (hstep : step codec s e = some t) {c c' : Call codec.Payload} (hc : s.calls[i]? = some c)
    (open_ : c.result = none) (hc' : t.calls[i]? = some c') (key : c'.key = "") {m : Message}
    (ok : c'.result = some (.ok m)) :
    ∃ row, row.id = m.id ∧ row.text = c'.text ∧ row.idemKey = none ∧
      row.id ∉ s.tables.messages.map MessageRow.id ∧
      t.tables.messages = s.tables.messages ++ [row] := by
  have next : Consistent t := consistent_step h hstep
  obtain ⟨row, answered⟩ := answered_of_ok next (List.mem_of_getElem? hc') ok
  have committed := answered.fresh key
  have good := h.calls c (List.mem_of_getElem? hc)
  have running : ∀ result, c.phase ≠ .finished result := by
    intro result hp
    simp only [Call.result, hp, reduceCtorEq] at open_
  have none : c.committed = none := good.uncommitted running
  by_cases own : e.call = some i
  · cases e with
    | exec j answer =>
      cases own
      obtain ⟨c₀, hc₀, _, rfl⟩ := step_exec hstep
      obtain rfl : c = c₀ := Option.some.inj (hc.symm.trans hc₀)
      have hi : i < s.calls.length := (List.getElem?_eq_some_iff.mp hc).1
      have here : (c.exec codec s.tables answer).2 = c' :=
        Option.some.inj ((List.getElem?_set_self hi).symm.trans hc')
      rcases c.exec_tables s.tables answer with ⟨_, _, same⟩ | ⟨result, eq, _⟩
      · rw [here, none, committed] at same
        cases same
      · have pending : c.pending = some row := by
          rw [← committed, ← here, eq]
          rfl
        refine ⟨row, answered.same.1.symm, answered.text, ?_, ?_, ?_⟩
        · rw [answered.key, key, nullIf_empty]
        · exact h.pending_fresh (List.mem_of_getElem? hc) pending
        · show (c.exec codec s.tables answer).1.messages = _
          rw [eq]
          simp only [Call.publish, pending, Option.toList_some]
    | crash j =>
      cases own
      obtain ⟨c₀, hc₀, rfl⟩ := step_crash hstep
      obtain rfl : c = c₀ := Option.some.inj (hc.symm.trans hc₀)
      have hi : i < s.calls.length := (List.getElem?_eq_some_iff.mp hc).1
      have here : c.crash = c' := Option.some.inj ((List.getElem?_set_self hi).symm.trans hc')
      have same : c.crash.committed = c.committed := by
        unfold Call.crash
        split <;> rfl
      rw [here, none, committed] at same
      cases same
    | tick | migrate | create | claim | complete | retry => cases own
  · have same := call_of_other_step own hstep hc
    obtain rfl : c = c' := Option.some.inj (same.symm.trans hc')
    cases open_.symm.trans ok

/-- Two calls commit two rows. -/
theorem committed_ne {s : Database codec} (h : Consistent s) {i j : Nat}
    {c c' : Call codec.Payload} (hc : s.calls[i]? = some c) (hc' : s.calls[j]? = some c')
    (ne : i ≠ j) {row row' : MessageRow} (done : c.committed = some row)
    (done' : c'.committed = some row') : row.id ≠ row'.id :=
  Rows.ne_of_filterMap h.settled ne hc hc' done done'

/-- **Create is idempotent under its key.** From any reachable state `s`, in every state `t` a run
reaches. A non-empty key has one row, and keeps it. Two calls that succeed under it are told the
same identifier, text and checksum. A call with a valid text other than the committed one commits
nothing, changes neither table, and returns a conflict or a database error, the conflict when no
statement fails. A key has at most one job for a target, however often its call was made. A call
without a key never waits and is never told of a conflict, and each of its successes is a new row of
its own. -/
theorem create_idempotent {s t : Database codec} (reach : (database codec).Reachable s)
    (run : (database codec).Runs s t) :
    (∀ key, key ≠ "" →
      (∀ row ∈ s.tables.messages, ∀ row' ∈ t.tables.messages,
        row.idemKey = some key → row'.idemKey = some key → row = row') ∧
      t.tables.messages.countP (fun r => r.idemKey = some key) ≤ 1 ∧
      ∀ target, t.tables.outbox.countP (jobUnder t.tables.messages key target) ≤ 1) ∧
    (∀ c ∈ t.calls, ∀ c' ∈ t.calls, c.key ≠ "" → c'.key = c.key → ∀ m m',
      c.result = some (.ok m) → c'.result = some (.ok m') →
      m'.id = m.id ∧ m'.text = m.text ∧ m'.checksum = m.checksum) ∧
    (∀ row ∈ s.tables.messages, ∀ (i : Nat) (c : Call codec.Payload), t.calls[i]? = some c →
      ¬ Blank c.text → c.key ≠ "" → row.idemKey = some c.key → row.text ≠ c.text →
      c.committed = none ∧
      (c.result = none ∨ c.result = some (.error .idempotencyConflict) ∨
        c.result = some (.error .database)) ∧
      (∀ e u, e.call = some i → step codec t e = some u →
        u.tables.messages = t.tables.messages ∧ u.tables.outbox = t.tables.outbox) ∧
      (∀ answers : List Answer, c.statementsLeft ≤ answers.length →
        ∃ u c', System.replay (step codec) t (answers.map (Event.exec i)) = some u ∧
          u.calls[i]? = some c' ∧
          (c'.result = some (.error .idempotencyConflict) ∨
            c'.result = some (.error .database))) ∧
      (c.phase = .inserting → t.tables.seq + 1 < 2 ^ 63 →
        ∃ u c', System.replay (step codec) t [.exec i .ok, .exec i .ok, .exec i .ok] = some u ∧
          u.calls[i]? = some c' ∧ c'.result = some (.error .idempotencyConflict))) ∧
    (∀ (i : Nat) (c : Call codec.Payload), t.calls[i]? = some c → c.key = "" →
      (∀ answer, c.waits t.calls answer = false) ∧
      c.result ≠ some (.error .idempotencyConflict) ∧
      (∀ m, c.result = some (.ok m) → ∃ row, c.committed = some row ∧ row.id = m.id ∧
        ∀ (j : Nat) (c' : Call codec.Payload) row', j ≠ i → t.calls[j]? = some c' →
        c'.committed = some row' →
          row'.id ≠ row.id) ∧
      (∀ e u c' m, step codec t e = some u → c.result = none → u.calls[i]? = some c' →
        c'.result = some (.ok m) → ∃ row, row.id = m.id ∧ row.text = c.text ∧ row.idemKey = none ∧
          row.id ∉ t.tables.messages.map MessageRow.id ∧
          u.tables.messages = t.tables.messages ++ [row])) := by
  have past := later reach run
  have h : Consistent t := consistent (reach.runs run)
  refine ⟨?_, ?_, ?_, ?_⟩
  · intro key _
    refine ⟨?_, one_row_per_key h key, one_job_per_key h key⟩
    intro row hrow row' hrow' under under'
    exact row_eq_of_key h (past.messages row hrow) hrow' under under'
  · intro c hc c' hc' key same m m' ok ok'
    exact same_answer h hc hc' key same ok ok'
  · intro row hrow i c hc valid key under differs
    have conflict : c.Conflicts t.tables.messages :=
      ⟨valid, key, row, past.messages row hrow, under, differs⟩
    have mem := List.mem_of_getElem? hc
    refine ⟨conflict.uncommitted h mem, conflict.result h mem, ?_, ?_, ?_⟩
    · intro e u own hstep
      exact conflict.step_tables h hc own hstep
    · intro answers left
      exact Call.Conflicts.returns answers h hc conflict left
    · exact conflict.told h hc
  · intro i c hc key
    have mem := List.mem_of_getElem? hc
    refine ⟨c.waits_empty key t.calls, conflict_needs_key h mem key, ?_, ?_⟩
    · intro m ok
      obtain ⟨row, answered⟩ := answered_of_ok h mem ok
      refine ⟨row, answered.fresh key, answered.same.1.symm, ?_⟩
      intro j c' row' ne hc' done'
      exact committed_ne h hc' hc ne done' (answered.fresh key)
    · intro e u c' m hstep running hc' ok
      obtain ⟨c'', hc'', continues⟩ := (later_step h hstep).calls i c hc
      obtain rfl : c'' = c' := Option.some.inj (hc''.symm.trans hc')
      rw [← continues.text]
      exact success_without_key h hstep hc running hc' (continues.key.trans key) ok

/-! ## A run -/

/-- A commit whose answer is lost, the same call again, and a call with another text. -/
def repeatedCreate : List Event :=
  [.create "text" "k" ["nats"] true, .exec 0 .ok, .exec 0 .ok, .exec 0 .lost, .exec 0 .ok,
    .create "text" "k" ["nats"] true, .exec 1 .ok, .exec 1 .ok, .exec 1 .ok,
    .create "other" "k" ["nats"] true, .exec 2 .ok, .exec 2 .ok, .exec 2 .ok]

theorem create_idempotent_repeated :
    ∃ t, (database plainCodec).Runs emptyDatabase t ∧ t.calls.length = 3 ∧
      t.tables.messages.length = 1 ∧
      t.tables.messages.countP (fun r => r.idemKey = some "k") ≤ 1 ∧
      t.tables.outbox.countP (jobUnder t.tables.messages "k" "nats") ≤ 1 := by
  have replayed : ∃ t, System.replay (step plainCodec) emptyDatabase repeatedCreate = some t ∧
      t.calls.length = 3 ∧ t.tables.messages.length = 1 := ⟨_, rfl, rfl, rfl⟩
  obtain ⟨t, ht, calls, messages⟩ := replayed
  have run : (database plainCodec).Runs emptyDatabase t := System.Runs.of_replay ht
  obtain ⟨_, rows, jobs⟩ := (create_idempotent (.of_init initial_empty) run).1 "k" (by decide)
  exact ⟨t, run, calls, messages, rows, jobs "nats"⟩

end OtusApp.Storage
