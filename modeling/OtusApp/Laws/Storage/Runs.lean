import OtusApp.Laws.Storage.Consistency

/-!
# What a run of the database keeps

`Later s t` is what every run from `s` to `t` keeps: rows and jobs stay, the clock does not go
back, a call keeps its arguments, and once it has finished or committed it keeps that too. A
message row of `t` was in `s` or was committed by a call.

`exec_tables` is the one place that reads off which statements change the committed tables: the
commit, and nothing else.
-/

namespace OtusApp.Storage

open Messaging Outbox Go Transition

variable {codec : EventCodec}

/-! ## One statement -/

theorem Call.selectMessage_same (c : Call codec.Payload) (db : Tables codec.Payload) :
    ∃ phase, c.selectMessage db = { c with phase := phase } := by
  unfold Call.selectMessage
  split
  · exact ⟨_, rfl⟩
  · split
    · exact ⟨_, rfl⟩
    · exact ⟨_, rfl⟩

theorem Call.insertOutbox_same (c : Call codec.Payload) (db : Tables codec.Payload) (m : Message)
    (payload : codec.Payload) (target : String) (rest : List String) :
    ∃ phase jobs, c.insertOutbox db m payload target rest =
      { c with phase := phase, pendingOutbox := jobs } := by
  unfold Call.insertOutbox
  split
  · exact ⟨_, _, rfl⟩
  · split
    · exact ⟨_, _, rfl⟩
    · exact ⟨_, _, rfl⟩

/-- A statement leaves both tables alone, or it is the commit of a call that has written all its
rows: then the tables gain exactly those. -/
theorem Call.exec_tables (c : Call codec.Payload) (db : Tables codec.Payload) (answer : Answer) :
    ((c.exec codec db answer).1.messages = db.messages ∧
      (c.exec codec db answer).1.outbox = db.outbox ∧
      (c.exec codec db answer).2.committed = c.committed) ∨
    ∃ result, c.exec codec db answer = (c.publish db, c.settle result) ∧
      ((∃ m payload, c.phase = .enqueueing m payload [] ∧ result = .ok m) ∨
        (c.phase = .inDoubt ∧ result = .error .database)) := by
  cases hp : c.phase with
  | inserting =>
    left
    cases answer with
    | failed => simp [Call.exec, hp, Call.fail]
    | lost => simp [Call.exec, hp, Call.fail]
    | ok =>
      simp only [Call.exec, hp]
      rcases c.insertMessage_cases db with eq | ⟨_, eq⟩ | ⟨_, phase, eq, _⟩
      · rw [eq]; exact ⟨rfl, rfl, rfl⟩
      · rw [eq]; exact ⟨rfl, rfl, rfl⟩
      · rw [eq]; exact ⟨rfl, rfl, rfl⟩
  | selecting =>
    left
    cases answer with
    | failed => simp [Call.exec, hp, Call.fail]
    | lost => simp [Call.exec, hp, Call.fail]
    | ok =>
      obtain ⟨phase, eq⟩ := c.selectMessage_same db
      simp [Call.exec, hp, eq]
  | replaying m =>
    left
    cases answer <;> simp [Call.exec, hp, Call.fail, Call.discard]
  | enqueueing m payload rest =>
    cases rest with
    | cons target rest =>
      left
      cases answer with
      | failed => simp [Call.exec, hp, Call.fail]
      | lost => simp [Call.exec, hp, Call.fail]
      | ok =>
        obtain ⟨phase, jobs, eq⟩ := c.insertOutbox_same db m payload target rest
        simp [Call.exec, hp, eq]
    | nil =>
      cases answer with
      | failed => left; simp [Call.exec, hp, Call.fail]
      | lost => left; simp [Call.exec, hp]
      | ok => exact .inr ⟨.ok m, by simp only [Call.exec, hp], .inl ⟨m, payload, rfl, rfl⟩⟩
  | inDoubt =>
    cases answer with
    | failed => left; simp [Call.exec, hp, Call.discard]
    | ok => exact .inr ⟨.error .database, by simp only [Call.exec, hp], .inr ⟨rfl, rfl⟩⟩
    | lost => exact .inr ⟨.error .database, by simp only [Call.exec, hp], .inr ⟨rfl, rfl⟩⟩
  | aborting err =>
    left
    simp [Call.exec, hp, Call.discard]
  | finished result =>
    left
    simp [Call.exec, hp]

/-- A call in front of a commit that writes has written all its rows. -/
theorem Call.Good.writing_of_stage {c : Call codec.Payload} {db : Tables codec.Payload}
    (good : c.Good db) {result : Except Err Message}
    (stage : (∃ m payload, c.phase = .enqueueing m payload [] ∧ result = .ok m) ∨
      (c.phase = .inDoubt ∧ result = .error .database)) : ∃ m payload, c.Writing m payload [] := by
  have position := good.position
  rcases stage with ⟨m, payload, hp, _⟩ | ⟨hp, _⟩
  · rw [hp] at position
    exact ⟨m, payload, position.1⟩
  · rw [hp] at position
    exact position.1

/-- A bound on the statements a call still runs, its rollback included. -/
def Call.statementsLeft (c : Call codec.Payload) : Nat :=
  match c.phase with
  | .inserting => c.targets.length + 4
  | .selecting => 3
  | .replaying _ => 2
  | .enqueueing _ _ rest => rest.length + 2
  | .inDoubt => 1
  | .aborting _ => 1
  | .finished _ => 0

/-- Every statement brings a call closer to its end. -/
theorem Call.exec_statementsLeft (c : Call codec.Payload) (db : Tables codec.Payload)
    (answer : Answer) : (c.exec codec db answer).2.statementsLeft ≤ c.statementsLeft - 1 := by
  cases hp : c.phase with
  | inserting =>
    cases answer with
    | failed | lost => simp [Call.exec, Call.fail, Call.statementsLeft, hp]
    | ok =>
      simp only [Call.exec, hp]
      rcases c.insertMessage_cases db with eq | ⟨_, eq⟩ | ⟨_, phase, eq, rfl | ⟨payload, _, rfl⟩⟩
      all_goals simp [eq, Call.fail, Call.statementsLeft, hp]
  | selecting =>
    cases answer with
    | failed | lost => simp [Call.exec, Call.fail, Call.statementsLeft, hp]
    | ok =>
      simp only [Call.exec, hp, Call.selectMessage]
      split
      · simp [Call.fail, Call.statementsLeft, hp]
      · split <;> simp [Call.fail, Call.statementsLeft, hp]
  | replaying m =>
    cases answer <;> simp [Call.exec, Call.fail, Call.discard, Call.statementsLeft, hp]
  | enqueueing m payload rest =>
    cases rest with
    | cons target rest =>
      cases answer with
      | failed | lost => simp [Call.exec, Call.fail, Call.statementsLeft, hp]
      | ok =>
        simp only [Call.exec, hp, Call.insertOutbox]
        split
        · simp [Call.fail, Call.statementsLeft, hp]
        · split <;> simp [Call.statementsLeft, hp]
    | nil => cases answer <;> simp [Call.exec, Call.fail, Call.settle, Call.statementsLeft, hp]
  | inDoubt => cases answer <;> simp [Call.exec, Call.discard, Call.settle, Call.statementsLeft, hp]
  | aborting err => simp [Call.exec, Call.discard, Call.statementsLeft, hp]
  | finished result => simp [Call.exec, Call.statementsLeft, hp]

/-- A call keeps its arguments, and what it finished with or committed. -/
structure Call.Continues (c c' : Call codec.Payload) : Prop where
  text : c'.text = c.text
  key : c'.key = c.key
  targets : c'.targets = c.targets
  finished : ∀ result, c.phase = .finished result → c'.phase = .finished result
  committed : ∀ row, c.committed = some row → c'.committed = some row

theorem Call.Continues.refl (c : Call codec.Payload) : c.Continues c :=
  ⟨rfl, rfl, rfl, fun _ h => h, fun _ h => h⟩

theorem Call.Continues.trans {c c' c'' : Call codec.Payload} (h : c.Continues c')
    (h' : c'.Continues c'') : c.Continues c'' where
  text := h'.text.trans h.text
  key := h'.key.trans h.key
  targets := h'.targets.trans h.targets
  finished result ended := h'.finished result (h.finished result ended)
  committed row done := h'.committed row (h.committed row done)

/-- A statement of a running call, which has committed nothing yet. -/
theorem Call.Continues.of_running {c c' : Call codec.Payload} {db : Tables codec.Payload}
    (good : c.Good db) (running : ∀ result, c.phase ≠ .finished result)
    (same : c'.text = c.text ∧ c'.key = c.key ∧ c'.targets = c.targets) : c.Continues c' where
  text := same.1
  key := same.2.1
  targets := same.2.2
  finished result ended := absurd ended (running result)
  committed _ done := absurd (done.symm.trans (good.uncommitted running)) nofun

theorem Call.exec_arguments (c : Call codec.Payload) (db : Tables codec.Payload)
    (answer : Answer) :
    (c.exec codec db answer).2.text = c.text ∧ (c.exec codec db answer).2.key = c.key ∧
      (c.exec codec db answer).2.targets = c.targets := by
  cases hp : c.phase with
  | inserting =>
    cases answer with
    | failed => simp [Call.exec, hp, Call.fail]
    | lost => simp [Call.exec, hp, Call.fail]
    | ok =>
      simp only [Call.exec, hp]
      rcases c.insertMessage_cases db with eq | ⟨_, eq⟩ | ⟨_, phase, eq, _⟩
      · rw [eq]; exact ⟨rfl, rfl, rfl⟩
      · rw [eq]; exact ⟨rfl, rfl, rfl⟩
      · rw [eq]; exact ⟨rfl, rfl, rfl⟩
  | selecting =>
    obtain ⟨phase, eq⟩ := c.selectMessage_same db
    cases answer <;> simp [Call.exec, hp, Call.fail, eq]
  | replaying m => cases answer <;> simp [Call.exec, hp, Call.fail, Call.discard]
  | enqueueing m payload rest =>
    cases rest with
    | cons target rest =>
      obtain ⟨phase, jobs, eq⟩ := c.insertOutbox_same db m payload target rest
      cases answer <;> simp [Call.exec, hp, Call.fail, eq]
    | nil => cases answer <;> simp [Call.exec, hp, Call.fail, Call.settle]
  | inDoubt => cases answer <;> simp [Call.exec, hp, Call.discard, Call.settle]
  | aborting err => simp [Call.exec, hp, Call.discard]
  | finished result => simp [Call.exec, hp]

theorem Call.exec_continues {c : Call codec.Payload} {db : Tables codec.Payload} (good : c.Good db)
    (answer : Answer) : c.Continues (c.exec codec db answer).2 := by
  by_cases ended : ∃ result, c.phase = .finished result
  · obtain ⟨result, hp⟩ := ended
    simp only [Call.exec, hp]
    exact .refl c
  · exact .of_running good (fun result hp => ended ⟨result, hp⟩) (c.exec_arguments db answer)

theorem Call.crash_continues {c : Call codec.Payload} {db : Tables codec.Payload}
    (good : c.Good db) : c.Continues c.crash := by
  unfold Call.crash
  split
  · exact .refl c
  · exact .refl c
  · next running _ => exact .of_running good running ⟨rfl, rfl, rfl⟩

/-! ## Whole runs -/

/-- What a run keeps. -/
structure Later (s t : Database codec) : Prop where
  messages : ∀ r ∈ s.tables.messages, r ∈ t.tables.messages
  jobs : ∀ j ∈ s.tables.outbox.map OutboxRow.job, j ∈ t.tables.outbox.map OutboxRow.job
  now : s.now ≤ t.now
  calls : ∀ (i : Nat) (c : Call codec.Payload), s.calls[i]? = some c →
    ∃ c', t.calls[i]? = some c' ∧ c.Continues c'
  origin : ∀ row ∈ t.tables.messages, row ∈ s.tables.messages ∨
    ∃ c ∈ t.calls, c.committed = some row

theorem Later.refl (s : Database codec) : Later s s where
  messages _ hr := hr
  jobs _ hj := hj
  now := Int.le_refl _
  calls _ c hc := ⟨c, hc, .refl c⟩
  origin _ hr := .inl hr

theorem Later.trans {s t u : Database codec} (h : Later s t) (h' : Later t u) : Later s u where
  messages r hr := h'.messages r (h.messages r hr)
  jobs j hj := h'.jobs j (h.jobs j hj)
  now := Int.le_trans h.now h'.now
  calls i c hc := by
    obtain ⟨c', hc', first⟩ := h.calls i c hc
    obtain ⟨c'', hc'', second⟩ := h'.calls i c' hc'
    exact ⟨c'', hc'', first.trans second⟩
  origin row hrow := by
    rcases h'.origin row hrow with old | new
    · rcases h.origin row old with old | ⟨c, mem, done⟩
      · exact .inl old
      · obtain ⟨i, hi⟩ := List.mem_iff_getElem?.mp mem
        obtain ⟨c', hc', continues⟩ := h'.calls i c hi
        exact .inr ⟨c', List.mem_of_getElem? hc', continues.committed row done⟩
    · exact .inr new

/-- A step that touches neither the messages nor the calls. -/
theorem Later.of_outbox {s t : Database codec} (messages : t.tables.messages = s.tables.messages)
    (jobs : t.tables.outbox.map OutboxRow.job = s.tables.outbox.map OutboxRow.job)
    (now : s.now ≤ t.now) (calls : t.calls = s.calls) : Later s t where
  messages r hr := messages ▸ hr
  jobs j hj := jobs ▸ hj
  now := now
  calls i c hc := ⟨c, by rw [calls]; exact hc, .refl c⟩
  origin row hrow := .inl (messages ▸ hrow)

/-- A step of one call: the others stand where they stood. -/
theorem Later.of_call {s : Database codec} {i : Nat} {c c' : Call codec.Payload}
    {db' : Tables codec.Payload} (hc : s.calls[i]? = some c) (continues : c.Continues c')
    (tables : (db'.messages = s.tables.messages ∧ db'.outbox = s.tables.outbox) ∨
      (db' = c.publish s.tables ∧ c'.committed = c.pending)) :
    Later s { s with tables := db', calls := s.calls.set i c' } := by
  have hi : i < s.calls.length := (List.getElem?_eq_some_iff.mp hc).1
  have mem : c' ∈ s.calls.set i c' := List.mem_set hi c'
  refine ⟨?_, ?_, Int.le_refl _, ?_, ?_⟩
  · rcases tables with ⟨messages, _⟩ | ⟨rfl, _⟩
    · exact fun r hr => messages.symm ▸ hr
    · exact fun r hr => List.mem_append_left _ hr
  · rcases tables with ⟨_, outbox⟩ | ⟨rfl, _⟩
    · exact fun j hj => by rw [show _ = _ from outbox]; exact hj
    · intro j hj
      show j ∈ List.map OutboxRow.job (s.tables.outbox ++ c.pendingOutbox)
      rw [List.map_append]
      exact List.mem_append_left _ hj
  · intro j d hd
    by_cases same : i = j
    · subst same
      obtain rfl : c = d := Option.some.inj (hc.symm.trans hd)
      exact ⟨c', List.getElem?_set_self hi, continues⟩
    · exact ⟨d, by rw [List.getElem?_set_ne same]; exact hd, .refl d⟩
  · intro row hrow
    rcases tables with ⟨messages, _⟩ | ⟨rfl, committed⟩
    · exact .inl (messages ▸ hrow)
    · rcases List.mem_append.mp hrow with old | new
      · exact .inl old
      · exact .inr ⟨c', mem, committed.trans (Option.mem_toList.mp new)⟩

theorem later_step {s t : Database codec} {e : Event} (h : Consistent s)
    (hstep : step codec s e = some t) : Later s t := by
  cases e with
  | tick elapsed =>
    cases hstep
    exact .of_outbox rfl rfl (Int.le_add_of_nonneg_right (Int.natCast_nonneg elapsed)) rfl
  | migrate =>
    cases hstep
    exact .of_outbox (migrate_eq_self h.hashed) rfl (Int.le_refl _) rfl
  | create text key targets begun =>
    cases hstep
    refine ⟨fun _ hr => hr, fun _ hj => hj, Int.le_refl _, fun i c hc => ?_, fun _ hr => .inl hr⟩
    have hi : i < s.calls.length := (List.getElem?_eq_some_iff.mp hc).1
    exact ⟨c, by rw [List.getElem?_append_left hi]; exact hc, .refl c⟩
  | exec i answer =>
    obtain ⟨c, hc, _, rfl⟩ := step_exec hstep
    have good := h.calls c (List.mem_of_getElem? hc)
    refine .of_call hc (c.exec_continues good answer) ?_
    rcases c.exec_tables s.tables answer with ⟨messages, outbox, _⟩ | ⟨result, eq, _⟩
    · exact .inl ⟨messages, outbox⟩
    · rw [eq]
      exact .inr ⟨rfl, rfl⟩
  | crash i =>
    obtain ⟨c, hc, rfl⟩ := step_crash hstep
    have good := h.calls c (List.mem_of_getElem? hc)
    exact .of_call hc (c.crash_continues good) (.inl ⟨rfl, rfl⟩)
  | claim target d token locked answer =>
    obtain ⟨_, rfl⟩ := step_claim hstep
    exact .of_outbox rfl (claim_jobs ..) (Int.le_refl _) rfl
  | complete d answer =>
    cases hstep
    exact .of_outbox rfl (complete_jobs ..) (Int.le_refl _) rfl
  | retry d delay answer =>
    cases hstep
    exact .of_outbox rfl (retry_jobs ..) (Int.le_refl _) rfl

/-- **Every run keeps what `Later` says.** -/
theorem later {s t : Database codec} (h : (database codec).Reachable s)
    (run : (database codec).Runs s t) : Later s t :=
  h.run_rel Later.refl Later.trans (fun _ _ _ hs hstep => later_step (consistent hs) hstep) run

/-- A step adds message rows at the end, if any. -/
theorem extends_step {s t : Database codec} {e : Event} (h : Consistent s)
    (hstep : step codec s e = some t) : s.tables.messages <+: t.tables.messages := by
  cases e with
  | tick | create | complete | retry =>
    cases hstep
    exact List.prefix_rfl
  | migrate =>
    cases hstep
    exact (migrate_eq_self h.hashed).symm ▸ List.prefix_rfl
  | exec i answer =>
    obtain ⟨c, hc, _, rfl⟩ := step_exec hstep
    rcases c.exec_tables s.tables answer with ⟨messages, _⟩ | ⟨result, eq, _⟩
    · exact messages.symm ▸ List.prefix_rfl
    · simp only [eq]
      exact List.prefix_append _ _
  | crash i =>
    obtain ⟨c, hc, rfl⟩ := step_crash hstep
    exact List.prefix_rfl
  | claim =>
    obtain ⟨_, rfl⟩ := step_claim hstep
    exact List.prefix_rfl

theorem extends_run {s t : Database codec} (h : (database codec).Reachable s)
    (run : (database codec).Runs s t) : s.tables.messages <+: t.tables.messages :=
  h.run_rel (R := fun s t => s.tables.messages <+: t.tables.messages) (fun _ => List.prefix_rfl)
    List.IsPrefix.trans (fun _ _ _ hs hstep => extends_step (consistent hs) hstep) run

/-! ## The empty database -/

/-- A database without rows. -/
def emptyDatabase : Database plainCodec := ⟨⟨[], [], 0⟩, 0, [], [], []⟩

theorem initial_empty : Initial emptyDatabase where
  schema := ⟨List.nodup_nil, List.nodup_nil, nofun, List.nodup_nil⟩
  migrated := ⟨[], rfl⟩
  outbox := rfl
  calls := rfl
  tokens := rfl
  log := rfl

end OtusApp.Storage
