import OtusApp.Laws.Storage.Lease

/-!
# A delivered row is final

`Complete` is the one operation that sets `delivered_at`, on the row its delivery holds. From then
on no operation selects the row: it keeps every column, holds no token, and is in no later entry of
the history.
-/

namespace OtusApp.Storage

open Messaging Outbox Go Transition Lease

variable {codec : EventCodec}

/-- A delivered row holds no token. -/
theorem Agrees.token_of_delivered {o : OutboxRow codec.Payload}
    {last : Option (Op (Nat × String) String Time)} (agrees : Agrees o last)
    (done : o.deliveredAt ≠ none) : o.leaseToken = none := by
  cases last with
  | none => exact absurd agrees.2 done
  | some p =>
    cases p with
    | claimed t u k r => exact absurd agrees.2.2 done
    | released t a k r => exact absurd agrees.2.2 done
    | ended t k r => exact agrees.1

/-- The delivered rows after a step: those there were, and the row a `Complete` held. -/
theorem delivered_of_step {s t : Database codec} {e : Event} (c : Consistent s)
    (hstep : step codec s e = some t) {o' : OutboxRow codec.Payload} (ho' : o' ∈ t.tables.outbox)
    (done : o'.deliveredAt ≠ none) :
    o' ∈ s.tables.outbox ∨ ∃ d answer o, e = .complete d answer ∧ o ∈ s.tables.outbox ∧
      leased d o = true ∧ o' = delivered s.now o := by
  cases e with
  | tick | migrate | create =>
    cases hstep
    exact .inl ho'
  | crash i =>
    obtain ⟨_, _, rfl⟩ := step_crash hstep
    exact .inl ho'
  | exec i answer =>
    obtain ⟨call, hc, _, rfl⟩ := step_exec hstep
    have good := c.calls call (List.mem_of_getElem? hc)
    rcases call.exec_tables s.tables answer with ⟨_, outbox, _⟩ | ⟨result, eq, stage⟩
    · exact .inl (outbox ▸ ho')
    · rw [eq] at ho'
      rcases List.mem_append.mp ho' with old | new
      · exact .inl old
      · obtain ⟨m, payload, w⟩ := good.writing_of_stage stage
        obtain ⟨target, rfl⟩ := w.jobs o' new
        exact absurd rfl done
  | claim target d token locked answer =>
    obtain ⟨_, rfl⟩ := step_claim hstep
    rcases claim_effect codec s.tables.outbox target d token locked s.now answer with
      ⟨table, _⟩ | ⟨o, ho, ⟨_, undelivered, _⟩, table, _⟩
    · exact .inl (table ▸ ho')
    · rw [show _ = _ from table] at ho'
      obtain ⟨old, hold, ⟨selected, rfl⟩ | ⟨_, rfl⟩⟩ := Rows.mem_update ho'
      · -- the leased row was not delivered
        obtain rfl := Rows.eq_of_key c.jobs hold ho (by simpa using selected)
        exact absurd undelivered done
      · exact .inl hold
  | complete d answer =>
    cases hstep
    rw [show (complete s.tables.outbox d s.now answer).1 = _ from finish_table ..] at ho'
    split at ho'
    · exact .inl ho'
    · obtain ⟨old, hold, ⟨selected, rfl⟩ | ⟨_, rfl⟩⟩ := Rows.mem_update ho'
      · exact .inr ⟨d, answer, old, rfl, hold, selected, rfl⟩
      · exact .inl hold
  | retry d delay answer =>
    cases hstep
    rw [show (retry s.tables.outbox d delay s.now answer).1 = _ from finish_table ..] at ho'
    split at ho'
    · exact .inl ho'
    · obtain ⟨old, hold, ⟨selected, rfl⟩ | ⟨_, rfl⟩⟩ := Rows.mem_update ho'
      · simp only [leased, decide_eq_true_eq] at selected
        exact absurd selected.2.2.2 done
      · exact .inl hold

/-- What a run does to delivered rows: nothing, in the table and in the history. -/
structure Final (s t : Database codec) : Prop where
  rows : ∀ o ∈ s.tables.outbox, o.deliveredAt ≠ none → o ∈ t.tables.outbox
  log : ∃ new, t.log = new ++ s.log ∧
    ∀ o ∈ s.tables.outbox, o.deliveredAt ≠ none → ∀ e ∈ new, e.row ≠ o.key

theorem Final.refl (s : Database codec) : Final s s :=
  ⟨fun _ ho _ => ho, [], rfl, fun _ _ _ _ he => absurd he List.not_mem_nil⟩

theorem Final.trans {s t u : Database codec} (h : Final s t) (h' : Final t u) : Final s u := by
  obtain ⟨new, log, others⟩ := h.log
  obtain ⟨new', log', others'⟩ := h'.log
  refine ⟨fun o ho done => h'.rows o (h.rows o ho done) done, new' ++ new, ?_, ?_⟩
  · rw [log', log, List.append_assoc]
  · intro o ho done e he
    rcases List.mem_append.mp he with he | he
    · exact others' o (h.rows o ho done) done e he
    · exact others o ho done e he

/-- A step that keeps every row and the history. -/
theorem Final.of_same {s t : Database codec}
    (outbox : ∀ o ∈ s.tables.outbox, o ∈ t.tables.outbox) (log : t.log = s.log) : Final s t :=
  ⟨fun o ho _ => outbox o ho, [], log, fun _ _ _ _ he => absurd he List.not_mem_nil⟩

/-- An update of undelivered rows. -/
theorem Final.of_update {s t : Database codec} {select : OutboxRow codec.Payload → Bool}
    {set : OutboxRow codec.Payload → OutboxRow codec.Payload}
    (outbox : t.tables.outbox = Rows.update select set s.tables.outbox)
    (undelivered : ∀ o ∈ s.tables.outbox, select o = true → o.deliveredAt = none)
    {new : List Entry} (log : t.log = new ++ s.log)
    (on : ∀ e ∈ new, ∃ o ∈ s.tables.outbox, o.deliveredAt = none ∧ e.row = o.key)
    (keys : (s.tables.outbox.map OutboxRow.key).Nodup) : Final s t := by
  refine ⟨fun o ho done => ?_, new, log, fun o ho done e he same => ?_⟩
  · rw [outbox]
    refine Rows.mem_update_of_kept ho (Bool.eq_false_iff.mpr fun selected => ?_)
    exact done (undelivered o ho selected)
  · obtain ⟨o', ho', open_, row⟩ := on e he
    obtain rfl := Rows.eq_of_key keys ho ho' (same.symm.trans row)
    exact done open_

/-- `Complete` and `Retry` act on an undelivered row. -/
theorem Final.of_finish {s t : Database codec} (keys : (s.tables.outbox.map OutboxRow.key).Nodup)
    {d : Delivery} {answer : Answer} {e : Entry}
    {set : OutboxRow codec.Payload → OutboxRow codec.Payload}
    (row : e.row = (d.messageId, d.target))
    (outbox : t.tables.outbox = (finish s.tables.outbox d set answer).1)
    (log : t.log = finishEntry s.tables.outbox d e answer ++ s.log) : Final s t := by
  rw [finish_table] at outbox
  split at outbox
  · next failed =>
    refine .of_same (fun o ho => outbox ▸ ho) ?_
    rw [log, finishEntry, if_neg fun effect => effect.1 failed]
    rfl
  · refine .of_update outbox ?_ log ?_ keys
    · intro o _ selected
      simp only [leased, decide_eq_true_eq] at selected
      exact selected.2.2.2
    · intro e' he'
      unfold finishEntry at he'
      split at he'
      · next effect =>
        obtain ⟨o, ho, held⟩ := List.any_eq_true.mp effect.2
        simp only [leased, decide_eq_true_eq] at held
        refine ⟨o, ho, held.2.2.2, ?_⟩
        rw [List.mem_singleton.mp he', row, OutboxRow.key, held.1, held.2.1]
      · cases he'

theorem final_step {s t : Database codec} {e : Event} (c : Consistent s)
    (hstep : step codec s e = some t) : Final s t := by
  cases e with
  | tick | migrate | create =>
    cases hstep
    exact .of_same (fun _ ho => ho) rfl
  | crash i =>
    obtain ⟨_, _, rfl⟩ := step_crash hstep
    exact .of_same (fun _ ho => ho) rfl
  | exec i answer =>
    obtain ⟨call, _, _, rfl⟩ := step_exec hstep
    refine .of_same (fun o ho => ?_) rfl
    rcases call.exec_tables s.tables answer with ⟨_, outbox, _⟩ | ⟨result, eq, _⟩
    · exact outbox.symm ▸ ho
    · rw [eq]
      exact List.mem_append_left _ ho
  | claim target d token locked answer =>
    obtain ⟨_, rfl⟩ := step_claim hstep
    rcases claim_effect codec s.tables.outbox target d token locked s.now answer with
      ⟨table, entry⟩ | ⟨o, ho, ⟨_, undelivered, _⟩, table, entry⟩
    · exact .of_same (fun o ho => by rw [show _ = _ from table]; exact ho) (by rw [entry]; rfl)
    · refine .of_update table ?_ (congrArg (· ++ s.log) entry) ?_ c.jobs
      · intro r hr selected
        obtain rfl := Rows.eq_of_key c.jobs hr ho (by simpa using selected)
        exact undelivered
      · intro e he
        exact ⟨o, ho, undelivered, by rw [List.mem_singleton.mp he]; rfl⟩
  | complete d answer =>
    cases hstep
    exact .of_finish (e := .delivered s.now d.token (d.messageId, d.target)) c.jobs rfl rfl rfl
  | retry d delay answer =>
    cases hstep
    exact .of_finish (e := .released s.now delay d.token (d.messageId, d.target)) c.jobs rfl rfl rfl

/-- **A delivered row is final along every run.** -/
theorem final {s t : Database codec} (h : (database codec).Reachable s)
    (run : (database codec).Runs s t) : Final s t :=
  h.run_rel Final.refl Final.trans (fun _ _ _ hs hstep => final_step (consistent hs) hstep) run

end OtusApp.Storage
