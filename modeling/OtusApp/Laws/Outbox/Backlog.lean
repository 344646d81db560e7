import OtusApp.Laws.Resilience.Retry
import OtusApp.Laws.Storage.Outbox
import OtusApp.Outbox.Backlog

/-!
# A backlog is worked off in order

`Claim` takes the earliest job that is available, and whatever it takes is available again only
later, behind the jobs that were due before. So a worker that meets no failure takes the jobs that
were due when it began one after another, each once: a job that does not decode is passed over, and
does not hold up the others.
-/

namespace OtusApp.Outbox.Backlog

open Messaging Go Storage Program Resilience Run

variable {P : Type}

/-! ## The order of `Claim` -/

instance : Std.Total (claimOrder (P := P)) where
  total a b := by
    rcases Int.lt_trichotomy a.availableAt b.availableAt with earlier | same | later
    · exact .inl (.inl earlier)
    · exact (Nat.le_total a.messageId b.messageId).imp (fun le => .inr ⟨same, le⟩) fun le => .inr
        ⟨same.symm, le⟩
    · exact .inr (.inl later)

instance : IsTrans (OutboxRow P) claimOrder where
  trans a b c := by
    rintro (earlier | ⟨same, le⟩) (earlier' | ⟨same', le'⟩)
    · exact .inl (Int.lt_trans earlier earlier')
    · exact .inl (same' ▸ earlier)
    · exact .inl (same ▸ earlier')
    · exact .inr ⟨same.trans same', le.trans le'⟩

theorem availableAt_of_order {a b : OutboxRow P} (h : claimOrder a b) :
    a.availableAt ≤ b.availableAt := by
  rcases h with earlier | ⟨same, _⟩
  · exact Int.le_of_lt earlier
  · exact Int.le_of_eq same

/-- Jobs of one target that come before each other have one key. -/
theorem key_of_order {a b : OutboxRow P} (target : a.target = b.target) (h : claimOrder a b)
    (h' : claimOrder b a) :
    a.key = b.key := by
  have le := availableAt_of_order h
  have le' := availableAt_of_order h'
  have same : a.messageId = b.messageId := by
    rcases h with earlier | ⟨_, below⟩
    · exact absurd le' (Int.not_le.mpr earlier)
    · rcases h' with earlier | ⟨_, above⟩
      · exact absurd le (Int.not_le.mpr earlier)
      · exact Nat.le_antisymm below above
  rw [OutboxRow.key, OutboxRow.key, same, target]

/-- What is left of the backlog in the table: the jobs are as they were, and every other job that is
not delivered becomes available only after the start. -/
structure Left (target : String) (start : Time) (rest outbox : List (OutboxRow P)) : Prop where
  keys : (outbox.map OutboxRow.key).Nodup
  sorted : rest.Pairwise claimOrder
  distinct : (rest.map OutboxRow.key).Nodup
  mem : ∀ o ∈ rest, o ∈ outbox ∧ o.target = target ∧ o.deliveredAt = none ∧ o.availableAt ≤ start
  later : ∀ r ∈ outbox, r.target = target → r.deliveredAt = none → r ∈ rest ∨ start < r.availableAt

variable {target : String} {start : Time} {outbox outbox' rest : List (OutboxRow P)}
    {o o' : OutboxRow P}

theorem left_backlog (keys : (outbox.map OutboxRow.key).Nodup) :
    Left target start (backlog outbox target start) outbox where
  keys := keys
  sorted := List.pairwise_insertionSort claimOrder _
  distinct := by
    have perm :=
      (List.perm_insertionSort claimOrder
        (outbox.filter (claimable target [] start))).map OutboxRow.key
    exact perm.nodup_iff.mpr (keys.sublist ((List.filter_sublist).map _))
  mem o h := by
    rw [backlog, List.mem_insertionSort, List.mem_filter] at h
    obtain ⟨mem, claims⟩ := h
    simp only [claimable, decide_eq_true_eq] at claims
    exact ⟨mem, claims.1, claims.2.1, claims.2.2.1⟩
  later r mem same undelivered := by
    by_cases available : r.availableAt ≤ start
    · left
      rw [backlog, List.mem_insertionSort, List.mem_filter]
      exact ⟨mem, by
        simp only [claimable, decide_eq_true_eq]; exact ⟨same, undelivered, available,
          List.not_mem_nil⟩⟩
    · exact .inr (Int.not_le.mp available)

/-- The next job of the backlog is the one that `Claim` takes. -/
theorem Left.candidate (h : Left target start (o :: rest) outbox) {now : Time}
    (later : start ≤ now) :
    candidate outbox target [] now = some o := by
  obtain ⟨mem, same, undelivered, available⟩ := h.mem o List.mem_cons_self
  have claims : o ∈ outbox.filter (claimable target [] now) := by
    rw [List.mem_filter]
    refine ⟨mem, ?_⟩
    simp only [claimable, decide_eq_true_eq]
    exact ⟨same, undelivered, available.trans later, List.not_mem_nil⟩
  have sorted := List.pairwise_insertionSort claimOrder (outbox.filter (claimable target [] now))
  rw [Storage.candidate]
  cases first : (outbox.filter (claimable target [] now)).insertionSort claimOrder with
  | nil =>
    rw [← List.mem_insertionSort claimOrder, first] at claims
    cases claims
  | cons a others =>
    rw [first] at sorted
    have taken : Storage.candidate outbox target [] now = some a := by
      rw [Storage.candidate, first]; rfl
    obtain ⟨memA, sameA, undeliveredA, _, _⟩ := candidate_some taken
    -- the first one comes before the job, and the job before the first one
    have before : a = o ∨ claimOrder a o := by
      rw [← List.mem_insertionSort claimOrder, first] at claims
      rcases List.mem_cons.mp claims with is | behind
      · exact .inl is.symm
      · exact .inr (List.rel_of_pairwise_cons sorted behind)
    rcases before with is | before
    · exact congrArg some is
    · rcases h.later a memA sameA undeliveredA with inRest | after
      · rcases List.mem_cons.mp inRest with is | behind
        · exact congrArg some is
        · have ordered := List.rel_of_pairwise_cons h.sorted behind
          exact congrArg some
            (Rows.eq_of_key h.keys memA mem (key_of_order (sameA.trans same.symm) before ordered))
      · exact absurd ((availableAt_of_order before).trans available) (Int.not_le.mpr after)

/-- One job of the table is another one. -/
structure Replaced (o o' : OutboxRow P) (outbox outbox' : List (OutboxRow P)) : Prop where
  keys : outbox'.map OutboxRow.key = outbox.map OutboxRow.key
  new : o' ∈ outbox'
  kept : ∀ r ∈ outbox, r.key ≠ o.key → r ∈ outbox'
  only : ∀ r ∈ outbox', r = o' ∨ (r ∈ outbox ∧ r.key ≠ o.key)

/-- The next job is dealt with: it is delivered, or comes back only later. -/
theorem Left.next (h : Left target start (o :: rest) outbox)
    (replaced : Replaced o o' outbox outbox')
    (dealt : o'.deliveredAt ≠ none ∨ start < o'.availableAt) : Left target start rest outbox' where
  keys := replaced.keys ▸ h.keys
  sorted := h.sorted.of_cons
  distinct := (List.nodup_cons.mp h.distinct).2
  mem r inRest := by
    obtain ⟨mem, facts⟩ := h.mem r (List.mem_cons_of_mem o inRest)
    refine ⟨replaced.kept r mem fun same => ?_, facts⟩
    exact (List.nodup_cons.mp h.distinct).1 (same ▸ List.mem_map_of_mem inRest)
  later r mem same undelivered := by
    rcases replaced.only r mem with rfl | ⟨old, other⟩
    · exact .inr (dealt.resolve_left fun is => is undelivered)
    · refine (h.later r old same undelivered).imp_left fun inRest => ?_
      rcases List.mem_cons.mp inRest with rfl | behind
      · exact absurd rfl other
      · exact behind

/-! ## One job -/

/-- A rewriting of the one job with a key. -/
theorem replaced_update (keys : (outbox.map OutboxRow.key).Nodup) (mem : o ∈ outbox)
    {select : OutboxRow P → Bool} {set : OutboxRow P → OutboxRow P}
    (same : ∀ r, (set r).key = r.key) (mine : select o = true)
    (others : ∀ r, r.key ≠ o.key → select r = false) :
    Replaced o (set o) outbox (Rows.update select set outbox) where
  keys := Rows.map_update OutboxRow.key same outbox
  new := Rows.mem_update_of_selected mem mine
  kept r old other := Rows.mem_update_of_kept old (others r other)
  only r new := by
    obtain ⟨old, was, ⟨selected, rfl⟩ | ⟨kept, rfl⟩⟩ := Rows.mem_update new
    · have key : old.key = o.key := by
        by_contra other
        rw [others old other] at selected
        cases selected
      exact .inl (congrArg set (Rows.eq_of_key keys was mem key))
    · refine .inr ⟨was, fun key => ?_⟩
      rw [Rows.eq_of_key keys was mem key, mine] at kept
      cases kept

theorem Replaced.trans {o₁ o₂ o₃ : OutboxRow P} {t₁ t₂ t₃ : List (OutboxRow P)}
    (h : Replaced o₁ o₂ t₁ t₂) (h' : Replaced o₂ o₃ t₂ t₃) (key : o₂.key = o₁.key) :
    Replaced o₁ o₃ t₁ t₃ where
  keys := h'.keys.trans h.keys
  new := h'.new
  kept r old other := h'.kept r (h.kept r old other) (key ▸ other)
  only r new := by
    rcases h'.only r new with is | ⟨was, other⟩
    · exact .inl is
    · rcases h.only r was with rfl | older
      · exact absurd rfl other
      · exact .inr older

/-- The job is leased. -/
theorem replaced_lease (keys : (outbox.map OutboxRow.key).Nodup) (mem : o ∈ outbox) (token : String)
    (now : Time) (d : Duration) :
    Replaced o (lease token now d o) outbox
      (Rows.update (fun r => r.key = o.key) (lease token now d) outbox) :=
  replaced_update keys mem (fun _ => rfl) (decide_eq_true rfl) fun _ other => decide_eq_false other

/-- The job is delivered, by who leased it. -/
theorem replaced_delivered {token : String} {now' : Time} {lease' : Duration}
    (keys : (outbox.map OutboxRow.key).Nodup) (mem : lease token now' lease' o ∈ outbox)
    (undelivered : o.deliveredAt = none) (d : Delivery)
    (of : d.messageId = o.messageId ∧ d.target = o.target ∧ d.token = token) (now : Time) :
    Replaced (lease token now' lease' o) (delivered now (lease token now' lease' o)) outbox
      (Rows.update (leased d) (delivered now) outbox) := by
  obtain ⟨id, target, is⟩ := of
  refine replaced_update keys mem (fun _ => rfl) ?_ fun r other => ?_
  · exact decide_eq_true ⟨id.symm, target.symm, congrArg some is.symm, undelivered⟩
  · simp only [leased, decide_eq_false_iff_not]
    rintro ⟨sameId, sameTarget, _⟩
    exact other (Prod.ext (sameId.trans id) (sameTarget.trans target))

variable {codec : EventCodec} {world : World}

/-- What `Claim` does with the next job. -/
theorem claim_next {outbox : List (OutboxRow codec.Payload)} {o : OutboxRow codec.Payload}
    {now : Time} (next : candidate outbox target [] now = some o) (d : Duration) (token : String)
    (room : o.attempts < maxInteger) :
    Storage.claim codec outbox target d token [] now .ok =
      (Rows.update (fun r => r.key = o.key) (lease token now d) outbox,
        (codec.unmarshal o.payload).elim (.error .database) fun ev =>
          .ok (some ⟨o.messageId, target, token, o.attempts + 1, ev⟩)) := by
  have statement : claimStatement outbox target d token [] now =
      .ok (some (lease token now d o), Rows.update (fun r => r.key = o.key)
        (lease token now d) outbox) := by
    simp only [claimStatement, next, room, if_true]
  have payload : (lease token now d o).payload = o.payload := rfl
  simp only [Storage.claim, statement, payload]
  cases codec.unmarshal o.payload <;> rfl

/-! ## One iteration -/

variable {s : Plant codec.Payload} {v : Vars}

/-- What an iteration, or a part of it, leaves: it goes on, with a table and what the broker has
taken in by then. -/
def Goes (codec : EventCodec) (world : World) (x : Code Turn) (s : Plant codec.Payload)
    (outbox : List (OutboxRow codec.Payload)) (taken : List MessageCreated) : Prop :=
  ∃ v' s', x.exec (reply codec world) s = (.continue_ v', s') ∧ s'.outbox = outbox ∧
    s'.taken = taken ∧ s.calls ≤ s'.calls

/-- A call first. -/
theorem Goes.call {e : Call} {r : e.Result} {t : Plant codec.Payload}
    (answered : reply codec world s e = (r, t)) (calls : t.calls = s.calls + 1)
    {k : e.Result → Code Turn} {outbox : List (OutboxRow codec.Payload)}
    {taken : List MessageCreated} (h : Goes codec world (k r) t outbox taken) :
    Goes codec world (.call e k) s outbox taken := by
  obtain ⟨v', s', runs, table, took, more⟩ := h
  refine ⟨v', s', ?_, table, took, by omega⟩
  rw [Prog.exec, answered]
  exact runs

theorem Goes.ask {e : Call} {r : e.Result} {t : Plant codec.Payload}
    (answered : reply codec world s e = (r, t)) (calls : t.calls = s.calls + 1)
    {f : e.Result → Code Turn} {outbox : List (OutboxRow codec.Payload)}
    {taken : List MessageCreated} (h : Goes codec world (f r) t outbox taken) :
    Goes codec world (Prog.ask e >>= f) s outbox taken :=
  .call answered calls h

variable (world) in
theorem pause_goes (v : Vars) (delay : Duration) (s : Plant codec.Payload) :
    Goes codec world (Run.pause v delay) s s.outbox s.taken := by
  refine .call rfl rfl ?_
  exact ⟨v, s.tick, rfl, rfl, rfl, Nat.le_refl _⟩

variable (world) in
theorem complete_goes (v : Vars) (d : Delivery) (s : Plant codec.Payload) :
    Goes codec world (Run.complete v d) s
      (Rows.update (leased d) (delivered (world.clock s.calls)) s.outbox) s.taken := by
  refine .call rfl rfl ?_
  exact ⟨_, _, rfl, rfl, rfl, Nat.le_refl _⟩

variable (world) in
theorem publish_goes (v : Vars) (p : Nat) (d : Delivery) (s : Plant codec.Payload) : ∃ now,
    Goes codec world (Run.publish v p d) s (Rows.update (leased d) (delivered now) s.outbox)
      (s.taken ++ [d.event]) :=
  ⟨_, .call rfl rfl (complete_goes world v d _)⟩

variable (world) in
theorem deliver_goes (target : String) (v : Vars) (d : Delivery) (s : Plant codec.Payload) : ∃ now,
    Goes codec world (Run.deliver target v d) s (Rows.update (leased d) (delivered now) s.outbox)
      (s.taken ++ [d.event]) := by
  rw [Run.deliver]
  cases v.publisher with
  | some p => exact publish_goes world v p d s
  | none =>
    obtain ⟨now, goes⟩ := publish_goes world { v with publisher := some 0 } 0 d s.tick
    exact ⟨now, .call rfl rfl goes⟩

variable (world) in
theorem delayed_goes (v : Vars) (attempt : Int) {rest : Duration → Code Turn}
    (s : Plant codec.Payload) (h : ∀ delay, Goes codec world (rest delay) s.tick s.outbox s.taken) :
    Goes codec world (Run.delayed v attempt rest) s s.outbox s.taken := by
  obtain ⟨delay, drawn, _⟩ := backoff_between attempt (world.source s.calls)
  refine Goes.ask (e := .draw) rfl rfl ?_
  rw [drawn]
  exact h delay

/-- The plant after `Claim` has leased a job. -/
def leasing (world : World) (s : Plant P) (o : OutboxRow P) : Plant P :=
  { s.tick with
    outbox :=
      Rows.update (fun r => r.key = o.key)
        (lease (world.token s.calls) (world.clock s.calls) (45 * Duration.second)) s.outbox }

/-- The job is dealt with: it is delivered, or it does not decode and comes back only later. -/
def Dealt (codec : EventCodec) (start : Time) (o : OutboxRow codec.Payload)
    (outbox outbox' : List (OutboxRow codec.Payload)) : Prop :=
  ∃ o', Replaced o o' outbox outbox' ∧ o'.key = o.key ∧
    (o'.deliveredAt ≠ none ∨ codec.unmarshal o.payload = none ∧ start < o'.availableAt)

theorem claim_goes {o : OutboxRow codec.Payload} {rest : List (OutboxRow codec.Payload)}
    (h : Left target start (o :: rest) s.outbox) (room : o.attempts < maxInteger)
    (later : start ≤ world.clock s.calls) (v : Vars) :
    ∃ outbox', Dealt codec start o s.outbox outbox' ∧
      Goes codec world (Run.claim target v) s outbox'
        (s.taken ++ (codec.unmarshal o.payload).toList) := by
  obtain ⟨mem, same, undelivered, _⟩ := h.mem o List.mem_cons_self
  have replaced :=
    replaced_lease h.keys mem (world.token s.calls) (world.clock s.calls) (45 * Duration.second)
  have claimed := claim_next (h.candidate later) (45 * Duration.second) (world.token s.calls) room
  cases decoded : codec.unmarshal o.payload with
  | none =>
    have answered : reply codec world s (.claim target (45 * Duration.second)) = ((none, false),
        leasing world s o) := by
      simp only [reply, claimed, decoded]
      rfl
    have behind : start < after (world.clock s.calls) (45 * Duration.second) :=
      Int.lt_of_le_of_lt later (Int.lt_add_of_pos_right _ (by decide))
    refine ⟨(leasing world s o).outbox, ⟨_, replaced, rfl, .inr ⟨decoded, behind⟩⟩,
      .call answered rfl ?_⟩
    rw [Option.toList_none, List.append_nil]
    exact delayed_goes world _ _ (leasing world s o) fun delay => pause_goes world _ delay _
  | some ev =>
    have answered : reply codec world s (.claim target (45 * Duration.second)) =
        ((some ⟨o.messageId, target, world.token s.calls, o.attempts + 1, ev⟩, true),
          leasing world s o) := by
      simp only [reply, claimed, decoded]
      rfl
    obtain ⟨now, goes⟩ := deliver_goes world target { v with claimAttempt := 0 }
      ⟨o.messageId, target, world.token s.calls, o.attempts + 1, ev⟩ (leasing world s o)
    have delivered := replaced_delivered (replaced.keys ▸ h.keys) replaced.new undelivered
      ⟨o.messageId, target, world.token s.calls, o.attempts + 1, ev⟩ ⟨rfl, same.symm, rfl⟩ now
    exact ⟨_, ⟨_, replaced.trans delivered rfl, rfl, .inl nofun⟩, .call answered rfl goes⟩

/-- An iteration deals with the next job. -/
theorem turn_goes {o : OutboxRow codec.Payload} {rest : List (OutboxRow codec.Payload)}
    (h : Left target start (o :: rest) s.outbox) (room : o.attempts < maxInteger)
    (later : start ≤ world.clock s.calls) (v : Vars) :
    ∃ outbox', Dealt codec start o s.outbox outbox' ∧
      Goes codec world (Run.turn target v) s outbox'
        (s.taken ++ (codec.unmarshal o.payload).toList) := by
  have after : ∀ n, start ≤ world.clock (s.calls + n) := fun n =>
    later.trans (world.forward (Nat.le_add_right _ n))
  by_cases asks : v.nextStats.all (· < world.clock s.calls) = true
  · obtain ⟨outbox', dealt, goes⟩ :=
      claim_goes (s := s.tick.tick.tick) h room (after 3)
        { v with nextStats := some (world.clock (s.calls + 2) + 1000000) }
    refine ⟨outbox', dealt, Goes.ask (e := .now) rfl rfl ?_⟩
    rw [if_pos asks]
    exact .call rfl rfl (.call rfl rfl goes)
  · obtain ⟨outbox', dealt, goes⟩ := claim_goes (s := s.tick) h room (after 1) v
    refine ⟨outbox', dealt, Goes.ask (e := .now) rfl rfl ?_⟩
    rw [if_neg asks]
    exact goes

/-! ## The whole backlog -/

theorem Left.dealt {o : OutboxRow codec.Payload}
    {rest outbox outbox' : List (OutboxRow codec.Payload)}
    (h : Left target start (o :: rest) outbox) (dealt : Dealt codec start o outbox outbox') :
    Left target start rest outbox' := by
  obtain ⟨o', replaced, _, ends⟩ := dealt
  exact h.next replaced (ends.imp_right And.right)

/-- What is left after as many iterations as there are jobs. -/
theorem iterate_works_off {jobs : List (OutboxRow codec.Payload)}
    (h : Left target start jobs s.outbox) (room : ∀ o ∈ jobs, o.attempts < maxInteger)
    (later : start ≤ world.clock s.calls) (v : Vars) :
    let t :=
  ((iterate target jobs.length v).exec (reply codec world) s).2
    t.taken = s.taken ++ jobs.filterMap (fun o => codec.unmarshal o.payload) ∧
    (∀ r ∈ s.outbox, (∀ o ∈ jobs, r.key ≠ o.key) → r ∈ t.outbox) ∧
    ∀ o ∈ jobs, (codec.unmarshal o.payload).isSome → ∃ r ∈ t.outbox, r.key = o.key ∧
    r.deliveredAt ≠ none := by
  induction jobs generalizing s v with
  | nil => exact ⟨(List.append_nil _).symm, fun r mem _ => mem, nofun⟩
  | cons o rest ih =>
    obtain ⟨outbox', dealt, v', s', runs, rfl, taken, calls⟩ :=
      turn_goes (s := s.tick) h (room o List.mem_cons_self)
        (later.trans (world.forward (Nat.le_succ _))) v
    have onward := ih (h.dealt dealt) (fun o mem => room o (List.mem_cons_of_mem _ mem))
      (later.trans (world.forward (Nat.le_of_succ_le calls))) v'
    have goesOn : ((iterate target (rest.length + 1) v).exec (reply codec world) s).2 =
        ((iterate target rest.length v').exec (reply codec world) s').2 := by
      show ((turn target v >>= proceed (iterate target rest.length)).exec
        (reply codec world) s.tick).2 = _
      rw [Prog.exec_bind, runs]
      rfl
    obtain ⟨published, others, delivered⟩ := onward
    obtain ⟨o', replaced, key, ends⟩ := dealt
    have apart : ∀ r ∈ rest, o.key ≠ r.key := by
      intro r mem same
      exact (List.nodup_cons.mp h.distinct).1 (same ▸ List.mem_map_of_mem mem)
    rw [List.length_cons, goesOn]
    refine ⟨?_, ?_, ?_⟩
    · rw [published, taken, List.append_assoc, Rows.filterMap_cons_toList]
      rfl
    · intro r mem away
      refine others r (replaced.kept r mem (away o List.mem_cons_self)) fun job inRest => ?_
      exact away job (List.mem_cons_of_mem _ inRest)
    · intro job mem decodes
      rcases List.mem_cons.mp mem with rfl | inRest
      · have ended : o'.deliveredAt ≠ none := by
          refine ends.resolve_right fun failed => ?_
          rw [failed.1] at decodes
          cases decodes
        refine ⟨o', others o' replaced.new fun r inRest => ?_, key, ended⟩
        rw [key]
        exact apart r inRest
      · exact delivered job inRest decodes

/-- **A backlog is worked off in order.** A worker that meets no failure and is alone at the table,
whatever it was left with: after as many iterations as there were jobs due when it began, the broker
has taken in the events of just these, each once and in the order of `Claim`, and each of them is
marked as delivered. A job that does not decode is passed over, and the other rows of the table are
as they were. -/
theorem backlog_worked_off (keys : (s.outbox.map OutboxRow.key).Nodup) (target : String)
    (room : ∀ o ∈ backlog s.outbox target (world.clock s.calls), o.attempts < maxInteger)
    (v : Vars) :
    let jobs :=
  backlog s.outbox target (world.clock s.calls)
    let t := ((iterate target jobs.length v).exec (reply codec world) s).2
    t.taken = s.taken ++ jobs.filterMap (fun o => codec.unmarshal o.payload) ∧
    (∀ r ∈ s.outbox, r ∉ jobs → r ∈ t.outbox) ∧
    ∀ o ∈ jobs, (codec.unmarshal o.payload).isSome → ∃ r ∈ t.outbox, r.key = o.key ∧
    r.deliveredAt ≠ none := by
  intro jobs t
  have left : Left target (world.clock s.calls) jobs s.outbox := left_backlog keys
  obtain ⟨published, others, delivered⟩ :=
    iterate_works_off left room (Int.le_refl _) v
  refine ⟨published, fun r mem away => others r mem fun o job same => ?_, delivered⟩
  exact away (Rows.eq_of_key keys mem (left.mem o job).1 same ▸ job)

/-- A codec with payloads that do not decode. -/
def partialCodec : EventCodec :=
  ⟨Option MessageCreated, fun ev => some (some ev), id, fun _ _ h => (Option.some.inj h).symm⟩

/-- A job that became available at a time. -/
def jobAt (id : Nat) (now : Time) (payload : Option MessageCreated) :
    OutboxRow partialCodec.Payload :=
  ⟨id, "kafka", payload, now, now, none, 0, none⟩

/-- An event. -/
def eventOf (id : Nat) : MessageCreated := ⟨id, "a", "c", 0, "otus-app"⟩

/-- Four jobs: the earliest does not decode, and the last is not due yet. -/
def fourJobs : Plant partialCodec.Payload :=
  ⟨[jobAt 1 5 (some (eventOf 1)), jobAt 2 3 none, jobAt 3 4 (some (eventOf 3)),
    jobAt 4 1000 (some (eventOf 4))], [], 0⟩

/-- One tick at each call. -/
def ticking : World where
  clock n := 10 + n
  forward le := Int.add_le_add_left (Int.ofNat_le.mpr le) 10
  token _ := "t"
  source n := n

theorem backlog_worked_off_undecoded : ((iterate "kafka" 3 ⟨none, 0, 0, none⟩).exec
    (reply partialCodec ticking) fourJobs).2.taken = [eventOf 3, eventOf 1] := by
  have jobs : backlog fourJobs.outbox "kafka" 10 =
      [jobAt 2 3 none, jobAt 3 4 (some (eventOf 3)), jobAt 1 5 (some (eventOf 1))] := rfl
  have room : ∀ o ∈ backlog fourJobs.outbox "kafka" 10, o.attempts < maxInteger := by
    rw [jobs]
    decide
  obtain ⟨taken, _⟩ :=
    @backlog_worked_off partialCodec ticking fourJobs (by decide) "kafka" room ⟨none, 0, 0, none⟩
  exact taken

end OtusApp.Outbox.Backlog
