import OtusApp.Laws.Storage.Runs

/-!
# The transactional outbox

A message and its delivery jobs are one transaction. In every state any run reaches, a row that
`Create` committed has one job for every target its store is configured with, a job has its
message, and the payload of a job decodes to the event of that message. A call that does not commit
changes nothing on its way, at whichever statement it stops.

Premises: PostgreSQL's atomic statements and commits and its constraints are the model's steps; that
an encoded event reads back is the codec's own field. Which broker a target names plays no part.
-/

namespace OtusApp.Storage

open Messaging Outbox Go Transition

variable {codec : EventCodec}

/-- A step after which its call is uncommitted left both tables alone. -/
theorem tables_of_uncommitted {s t : Database codec} (h : Consistent s) {e : Event} {i : Nat}
    (own : e.call = some i) (hstep : step codec s e = some t) {c' : Call codec.Payload}
    (hc' : t.calls[i]? = some c') (none : c'.committed = none) :
    t.tables.messages = s.tables.messages ∧ t.tables.outbox = s.tables.outbox := by
  cases e with
  | exec j answer =>
    cases own
    obtain ⟨c, hc, _, rfl⟩ := step_exec hstep
    have hi : i < s.calls.length := (List.getElem?_eq_some_iff.mp hc).1
    have here : (c.exec codec s.tables answer).2 = c' :=
      Option.some.inj ((List.getElem?_set_self hi).symm.trans hc')
    rcases c.exec_tables s.tables answer with ⟨messages, outbox, _⟩ | ⟨result, eq, stage⟩
    · exact ⟨messages, outbox⟩
    · -- a commit: the call wrote a message row, so it is committed afterwards
      obtain ⟨m, payload, w⟩ := (h.calls c (List.mem_of_getElem? hc)).writing_of_stage stage
      have committed : c'.committed = c.pending := by rw [← here, eq]; rfl
      exact absurd (none.symm.trans (committed.trans w.pending)) nofun
  | crash j =>
    obtain ⟨c, _, rfl⟩ := step_crash hstep
    exact ⟨rfl, rfl⟩
  | tick | migrate | create | claim | complete | retry => cases own

/-- A finished call holds no row and no key. -/
theorem clean_of_finished {s : Database codec} (h : Consistent s) {c : Call codec.Payload}
    (hc : c ∈ s.calls) {result : Except Err Message} (ended : c.phase = .finished result) :
    c.pending = none ∧ c.pendingOutbox = [] := by
  have position := (h.calls c hc).position
  rw [ended] at position
  cases result with
  | ok m => exact position.1
  | error err => exact position.1

/-- A committed row has exactly one job for every target of the store that committed it. -/
theorem one_job_per_target {s : Database codec} (h : Consistent s) {c : Call codec.Payload}
    (hc : c ∈ s.calls) {row : MessageRow} (done : c.committed = some row) {target : String}
    (ht : target ∈ c.targets) :
    s.tables.outbox.countP (fun o => o.key = (row.id, target)) = 1 := by
  obtain ⟨o, ho, key⟩ := List.mem_map.mp (((h.calls c hc).committed row done).jobs target ht)
  rw [← key]
  exact Rows.countP_key h.jobs ho

/-- The message a job describes is the only one with the job's identifier. -/
theorem described_unique {s : Database codec} (h : Consistent s) {o : OutboxRow codec.Payload}
    (ho : o ∈ s.tables.outbox) {row : MessageRow} (hrow : row ∈ s.tables.messages)
    (id : row.id = o.messageId) :
    ¬ Blank row.text ∧ row.textHash = checksum row.text ∧
      codec.unmarshal o.payload = some (row.message true).createdEvent := by
  obtain ⟨r, hr, rid, described⟩ := h.described o ho
  have ids := h.distinct.ids
  rw [written, List.map_append] at ids
  obtain rfl : r = row := Rows.eq_of_key ids.of_append_left hr hrow (rid.trans id.symm)
  exact described

/-- **The transactional outbox.** In every state a run from a migrated database reaches: a message
row that was not there before was committed by a call of `Create`; a committed row carries a text
that is not blank with its checksum, and has exactly one job for every target of the store that
committed it; a job has its message, and decodes to that message's event; a call that has not
committed by the end of a run changed neither table at any of its steps; and a finished call holds
no row and no key. -/
theorem outbox_transactional {s₀ s : Database codec} (init : Initial s₀)
    (run : (database codec).Runs s₀ s) :
    (∀ row ∈ s.tables.messages, row ∈ s₀.tables.messages ∨ ∃ c ∈ s.calls, c.committed = some row) ∧
    (∀ c ∈ s.calls, ∀ row, c.committed = some row →
      row ∈ s.tables.messages ∧ ¬ Blank row.text ∧ row.textHash = checksum row.text ∧
      ∀ target ∈ c.targets, s.tables.outbox.countP (fun o => o.key = (row.id, target)) = 1) ∧
    (∀ o ∈ s.tables.outbox, (∃ row ∈ s.tables.messages, row.id = o.messageId) ∧
      ∀ row ∈ s.tables.messages, row.id = o.messageId →
        ¬ Blank row.text ∧ row.textHash = checksum row.text ∧
        codec.unmarshal o.payload = some (row.message true).createdEvent) ∧
    (∀ e i t u c, e.call = some i → step codec s e = some t → (database codec).Runs t u →
      u.calls[i]? = some c → c.committed = none →
      t.tables.messages = s.tables.messages ∧ t.tables.outbox = s.tables.outbox) ∧
    (∀ c ∈ s.calls, ∀ result, c.phase = .finished result →
      c.pending = none ∧ c.pendingOutbox = []) := by
  have start : (database codec).Reachable s₀ := .of_init init
  have reach : (database codec).Reachable s := start.runs run
  have h : Consistent s := consistent reach
  refine ⟨(later start run).origin, ?_, ?_, ?_, ?_⟩
  · intro c hc row done
    have committed := (h.calls c hc).committed row done
    refine ⟨committed.stored, ?_, ?_, fun target ht => one_job_per_target h hc done ht⟩
    · rw [committed.written]
      exact committed.valid
    · rw [committed.written]
      rfl
  · intro o ho
    obtain ⟨r, hr, id, _⟩ := h.described o ho
    exact ⟨⟨r, hr, id⟩, fun row hrow same => described_unique h ho hrow same⟩
  · intro e i t u c own hstep rest hc none
    have next : (database codec).Reachable t := reach.step hstep
    -- what is uncommitted at the end was uncommitted after this step
    have there : ∃ c', t.calls[i]? = some c' := by
      obtain ⟨c₀, h₀⟩ := call_of_step own hstep
      obtain ⟨c', hc', _⟩ := (later_step h hstep).calls i c₀ h₀
      exact ⟨c', hc'⟩
    obtain ⟨c', hc'⟩ := there
    refine tables_of_uncommitted h own hstep hc' ?_
    obtain ⟨c'', hc'', continues⟩ := (later next rest).calls i c' hc'
    obtain rfl : c'' = c := Option.some.inj (hc''.symm.trans hc)
    cases done : c'.committed with
    | none => rfl
    | some row => exact absurd (none.symm.trans (continues.committed row done)) nofun
  · intro c hc result ended
    exact clean_of_finished h hc ended

/-! ## A run -/

/-- A store with two targets commits a message; the next call loses the answer of its commit, and
a worker claims a job in between. -/
def twoCreates : List Event :=
  [.create "first" "k" ["kafka", "nats"] true, .exec 0 .ok, .exec 0 .ok, .exec 0 .ok, .exec 0 .ok,
    .create "second" "" ["nats"] true, .exec 1 .ok, .claim "nats" Duration.second "t1" [] .ok,
    .exec 1 .ok, .exec 1 .lost, .exec 1 .ok]

theorem outbox_transactional_twoCreates :
    ∃ s, (database plainCodec).Runs emptyDatabase s ∧ s.tables.messages.length = 2 ∧
      s.tables.outbox.length = 3 ∧
      ∀ c ∈ s.calls, ∀ row, c.committed = some row →
        ∀ target ∈ c.targets, s.tables.outbox.countP (fun o => o.key = (row.id, target)) = 1 := by
  have replayed : ∃ s, System.replay (step plainCodec) emptyDatabase twoCreates = some s ∧
      s.tables.messages.length = 2 ∧ s.tables.outbox.length = 3 := ⟨_, rfl, rfl, rfl⟩
  obtain ⟨s, hs, messages, outbox⟩ := replayed
  have run : (database plainCodec).Runs emptyDatabase s := System.Runs.of_replay hs
  refine ⟨s, run, messages, outbox, fun c hc row done => ?_⟩
  exact ((outbox_transactional initial_empty run).2.1 c hc row done).2.2.2

end OtusApp.Storage
