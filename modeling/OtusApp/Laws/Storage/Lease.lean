import OtusApp.Lib.Lease
import OtusApp.Laws.Storage.Runs

/-!
# Leases and fencing tokens

The columns `available_at`, `lease_token` and `delivered_at` of an outbox row are the state of a
lease. `Leases` ties them to the history of the operations on the row: the history is one a lease
admits, and each row shows what the last operation on it wrote. The two laws of leases then hold of
the outbox: `Claim`s of one row are a lease apart unless a `Retry` released it in between, and
`Complete` and `Retry` succeed for the token of the last `Claim` and for no other.

A lease is counted in whole milliseconds, as `Milliseconds` counts it: a fraction is dropped, and
the row is free that much earlier.
-/

namespace OtusApp.Storage

open Messaging Outbox Go Transition Lease

variable {codec : EventCodec}

/-! ## The history of a row -/

/-- An entry of the history as an operation of a lease. -/
def Entry.op : Entry → Op (Nat × String) String Time
  | .claimed time d token row => .claimed time (after time d) token row
  | .released time delay token row => .released time (after time delay) token row
  | .delivered time token row => .ended time token row

@[simp] theorem Entry.op_row (e : Entry) : e.op.row = e.row := by cases e <;> rfl

@[simp] theorem Entry.op_token (e : Entry) : e.op.token = e.token := by cases e <;> rfl

@[simp] theorem Entry.op_time (e : Entry) : e.op.time = e.time := by cases e <;> rfl

@[simp] theorem Entry.op_isClaim (e : Entry) : e.op.isClaim = e.isClaim := by cases e <;> rfl

/-- The history as the history of leases. -/
def ops (log : List Entry) : List (Op (Nat × String) String Time) := log.map Entry.op

/-- What a row shows after the last operation on it. -/
def Agrees (o : OutboxRow codec.Payload) : Option (Op (Nat × String) String Time) → Prop
  | none => o.leaseToken = none ∧ o.deliveredAt = none
  | some (.claimed _ u token _) =>
    o.leaseToken = some token ∧ o.availableAt = u ∧ o.deliveredAt = none
  | some (.released _ a _ _) => o.leaseToken = none ∧ o.availableAt = a ∧ o.deliveredAt = none
  | some (.ended time _ _) => o.leaseToken = none ∧ o.deliveredAt = some time

/-- The invariant of the leases. -/
structure Leases (s : Database codec) : Prop where
  history : History (ops s.log)
  past : ∀ e ∈ s.log, e.time ≤ s.now
  drawn : ∀ e ∈ s.log, e.token ∈ s.tokens
  known : ∀ e ∈ s.log, e.row ∈ s.tables.outbox.map OutboxRow.key
  rows : ∀ o ∈ s.tables.outbox, Agrees o (latest (ops s.log) o.key)

/-- A row that is due may be claimed. -/
theorem Agrees.claim {o : OutboxRow codec.Payload} {last : Option (Op (Nat × String) String Time)}
    (agrees : Agrees o last) {now : Time} (undelivered : o.deliveredAt = none)
    (due : o.availableAt ≤ now) (d : Duration) (token : String) (row : Nat × String) :
    Follows (Entry.claimed now d token row).op last := by
  cases last with
  | none => exact .first
  | some p =>
    cases p with
    | claimed t u k r =>
      obtain ⟨_, until_, _⟩ := agrees
      exact .expired (until_ ▸ due)
    | released t a k r =>
      obtain ⟨_, released, _⟩ := agrees
      exact .free (released ▸ due)
    | ended t k r => exact absurd (undelivered.symm.trans agrees.2) nofun

/-- A row that carries a token was last claimed under it. -/
theorem Agrees.claimed_of_token {o : OutboxRow codec.Payload}
    {last : Option (Op (Nat × String) String Time)} (agrees : Agrees o last) {token : String}
    (held : o.leaseToken = some token) : ∃ t u r, last = some (.claimed t u token r) := by
  cases last with
  | none => exact absurd (held.symm.trans agrees.1) nofun
  | some p =>
    cases p with
    | claimed t u k r =>
      obtain rfl : token = k := Option.some.inj (held.symm.trans agrees.1)
      exact ⟨t, u, r, rfl⟩
    | released t a k r => exact absurd (held.symm.trans agrees.1) nofun
    | ended t k r => exact absurd (held.symm.trans agrees.1) nofun

/-! ## One step -/

/-- A step that adds rows at most: the new ones are unclaimed and under new keys. -/
theorem Leases.grow {s t : Database codec} (h : Leases s) (log : t.log = s.log)
    (tokens : t.tokens = s.tokens) (now : s.now ≤ t.now)
    (new : List (OutboxRow codec.Payload)) (outbox : t.tables.outbox = s.tables.outbox ++ new)
    (unclaimed : ∀ o ∈ new, o.leaseToken = none ∧ o.deliveredAt = none ∧
      o.key ∉ s.tables.outbox.map OutboxRow.key) : Leases t := by
  refine ⟨by rw [log]; exact h.history, ?_, ?_, ?_, ?_⟩
  · intro e he
    rw [log] at he
    exact Int.le_trans (h.past e he) now
  · intro e he
    rw [log] at he
    rw [tokens]
    exact h.drawn e he
  · intro e he
    rw [log] at he
    rw [outbox, List.map_append]
    exact List.mem_append_left _ (h.known e he)
  · intro o ho
    rw [outbox] at ho
    rw [log]
    rcases List.mem_append.mp ho with ho | ho
    · exact h.rows o ho
    · obtain ⟨token, undelivered, fresh⟩ := unclaimed o ho
      have none : latest (ops s.log) o.key = none := by
        refine List.find?_eq_none.mpr fun p hp same => fresh ?_
        obtain ⟨e, he, rfl⟩ := List.mem_map.mp hp
        simp only [Entry.op_row, decide_eq_true_eq] at same
        rw [← same]
        exact h.known e he
      rw [none]
      exact ⟨token, undelivered⟩

/-- **An operation that takes effect keeps the invariant**: it follows the last one on its row,
writes what it records, and touches no other row. -/
theorem Leases.record {s : Database codec} (h : Leases s)
    (keys : (s.tables.outbox.map OutboxRow.key).Nodup) {o : OutboxRow codec.Payload}
    (ho : o ∈ s.tables.outbox) {e : Entry} (row : e.row = o.key) (time : e.time = s.now)
    (follows : Follows e.op (latest (ops s.log) o.key))
    (fresh : e.isClaim = true → e.token ∉ s.tokens) {tokens : List String}
    (drawn : e.token ∈ tokens) (kept : ∀ k ∈ s.tokens, k ∈ tokens)
    {select : OutboxRow codec.Payload → Bool}
    {set : OutboxRow codec.Payload → OutboxRow codec.Payload}
    (selects : ∀ r ∈ s.tables.outbox, select r = true ↔ r = o) (same : ∀ r, (set r).key = r.key)
    (agrees : Agrees (set o) (some e.op)) :
    Leases { s with
      tables := { s.tables with outbox := Rows.update select set s.tables.outbox }
      tokens := tokens
      log := e :: s.log } := by
  have keysSame : (Rows.update select set s.tables.outbox).map OutboxRow.key =
      s.tables.outbox.map OutboxRow.key := Rows.map_update OutboxRow.key same _
  refine ⟨⟨h.history, ?_, ?_, ?_⟩, ?_, ?_, ?_, ?_⟩
  · intro q hq
    obtain ⟨e', he', rfl⟩ := List.mem_map.mp hq
    rw [Entry.op_time, Entry.op_time, time]
    exact h.past e' he'
  · rw [Entry.op_row, row]
    exact follows
  · intro claim q hq
    obtain ⟨e', he', rfl⟩ := List.mem_map.mp hq
    rw [Entry.op_isClaim] at claim
    rw [Entry.op_token, Entry.op_token]
    intro drawnBefore
    exact fresh claim (drawnBefore ▸ h.drawn e' he')
  · intro e' he'
    rcases List.mem_cons.mp he' with rfl | he'
    · exact Int.le_of_eq time
    · exact h.past e' he'
  · intro e' he'
    rcases List.mem_cons.mp he' with rfl | he'
    · exact drawn
    · exact kept _ (h.drawn e' he')
  · intro e' he'
    show e'.row ∈ (Rows.update select set s.tables.outbox).map OutboxRow.key
    rw [keysSame]
    rcases List.mem_cons.mp he' with rfl | he'
    · rw [row]
      exact List.mem_map_of_mem ho
    · exact h.known e' he'
  · intro r hr
    show Agrees r (latest (e.op :: ops s.log) r.key)
    obtain ⟨old, hold, ⟨selected, rfl⟩ | ⟨other, rfl⟩⟩ := Rows.mem_update hr
    · obtain rfl := (selects old hold).mp selected
      rw [same, ← row, ← Entry.op_row, latest_cons_self]
      exact agrees
    · -- another row has another key
      have ne : e.op.row ≠ r.key := by
        rw [Entry.op_row, row]
        intro eq
        obtain rfl := Rows.eq_of_key keys ho hold eq
        exact absurd (((selects o ho).mpr rfl).symm.trans other) nofun
      rw [latest_cons_ne ne]
      exact h.rows r hold

/-- A leased row is the only one its delivery selects. -/
theorem leased_iff {outbox : List (OutboxRow codec.Payload)}
    (keys : (outbox.map OutboxRow.key).Nodup) {d : Delivery} {o : OutboxRow codec.Payload}
    (ho : o ∈ outbox) (held : leased d o = true) : ∀ r ∈ outbox, leased d r = true ↔ r = o := by
  intro r hr
  refine ⟨fun held' => ?_, fun same => same ▸ held⟩
  simp only [leased, decide_eq_true_eq] at held held'
  refine Rows.eq_of_key keys hr ho ?_
  rw [OutboxRow.key, OutboxRow.key, held.1, held.2.1, held'.1, held'.2.1]

/-- `Claim` keeps the invariant. -/
theorem Leases.claim {s : Database codec} (h : Leases s)
    (keys : (s.tables.outbox.map OutboxRow.key).Nodup) {target token : String} {d : Duration}
    {locked : List (Nat × String)} {answer : Answer} (fresh : token ∉ s.tokens) :
    Leases { s with
      tables := { s.tables with
        outbox := (claim codec s.tables.outbox target d token locked s.now answer).1 }
      tokens := token :: s.tokens
      log := claimEntry s.tables.outbox target d token locked s.now answer ++ s.log } := by
  have unchanged : Leases { s with tokens := token :: s.tokens } :=
    ⟨h.history, h.past, fun e he => List.mem_cons_of_mem _ (h.drawn e he), h.known, h.rows⟩
  rcases claim_effect codec s.tables.outbox target d token locked s.now answer with
    ⟨table, entry⟩ | ⟨o, ho, ⟨_, undelivered, due⟩, table, entry⟩
  · rw [table, entry]
    exact unchanged
  · rw [table, entry]
    refine h.record keys ho rfl rfl ((h.rows o ho).claim undelivered due d token o.key)
      (fun _ => fresh) List.mem_cons_self (fun k hk => List.mem_cons_of_mem _ hk) ?_ (fun _ => rfl)
      ⟨rfl, rfl, undelivered⟩
    intro r hr
    simp only [decide_eq_true_eq]
    exact ⟨fun same => Rows.eq_of_key keys hr ho same, fun same => same ▸ rfl⟩

/-- `Complete` and `Retry` keep the invariant: what is written to the leased row is what the entry
records. -/
theorem Leases.finish {s : Database codec} (h : Leases s)
    (keys : (s.tables.outbox.map OutboxRow.key).Nodup) {d : Delivery} {answer : Answer} {e : Entry}
    {set : OutboxRow codec.Payload → OutboxRow codec.Payload}
    (row : e.row = (d.messageId, d.target)) (time : e.time = s.now) (token : e.token = d.token)
    (noClaim : e.isClaim = false) (same : ∀ r, (set r).key = r.key)
    (agrees : ∀ o, o.deliveredAt = none → Agrees (set o) (some e.op)) :
    Leases { s with
      tables := { s.tables with outbox := (finish s.tables.outbox d set answer).1 }
      log := finishEntry s.tables.outbox d e answer ++ s.log } := by
  rw [finish_table]
  by_cases effect : answer ≠ .failed ∧ s.tables.outbox.any (leased d) = true
  · obtain ⟨reached, found⟩ := effect
    obtain ⟨o, ho, held⟩ := List.any_eq_true.mp found
    have columns := held
    simp only [leased, decide_eq_true_eq] at columns
    obtain ⟨id, target, leaseToken, undelivered⟩ := columns
    have key : o.key = (d.messageId, d.target) := by rw [OutboxRow.key, id, target]
    obtain ⟨t, u, r, last⟩ := (h.rows o ho).claimed_of_token leaseToken
    have drawn : e.token ∈ s.tokens := by
      obtain ⟨mem, _⟩ := mem_of_latest last
      obtain ⟨e', he', op⟩ := List.mem_map.mp mem
      have carried : e'.token = d.token := by rw [← Entry.op_token, op]; rfl
      rw [token, ← carried]
      exact h.drawn e' he'
    have follows : Follows e.op (latest (ops s.log) o.key) := by
      rw [last]
      cases e with
      | claimed t l k r => cases noClaim
      | released t l k r =>
        obtain rfl := token
        exact .release
      | delivered t k r =>
        obtain rfl := token
        exact .finish
    simp only [finishEntry, reached, found, ne_eq, not_false_eq_true, and_self, if_true, if_false]
    refine h.record keys ho (row.trans key.symm) time follows ?_ drawn (fun _ hk => hk)
      (leased_iff keys ho held) same (agrees o undelivered)
    intro claim
    exact absurd (claim.symm.trans noClaim) nofun
  · have entry : finishEntry s.tables.outbox d e answer = [] := if_neg effect
    rw [entry]
    split
    · exact h
    · next reached =>
      have none : ∀ r ∈ s.tables.outbox, leased d r = false := by
        intro r hr
        refine Bool.eq_false_iff.mpr fun held => effect ⟨reached, ?_⟩
        exact List.any_eq_true.mpr ⟨r, hr, held⟩
      rw [Rows.update_eq_self none]
      exact h

/-- One label keeps the invariant. -/
theorem leases_step {s t : Database codec} {e : Event} (c : Consistent s) (h : Leases s)
    (hstep : step codec s e = some t) : Leases t := by
  have unchanged : ∀ {t : Database codec}, t.log = s.log → t.tokens = s.tokens → s.now ≤ t.now →
      t.tables.outbox = s.tables.outbox → Leases t := by
    intro t log tokens now outbox
    refine h.grow log tokens now [] (by rw [outbox, List.append_nil]) ?_
    intro o ho
    cases ho
  cases e with
  | tick elapsed =>
    cases hstep
    exact unchanged rfl rfl (Int.le_add_of_nonneg_right (Int.natCast_nonneg elapsed)) rfl
  | migrate | create =>
    cases hstep
    exact unchanged rfl rfl (Int.le_refl _) rfl
  | crash i =>
    obtain ⟨_, _, rfl⟩ := step_crash hstep
    exact unchanged rfl rfl (Int.le_refl _) rfl
  | exec i answer =>
    obtain ⟨call, hc, _, rfl⟩ := step_exec hstep
    have mem := List.mem_of_getElem? hc
    have good := c.calls call mem
    rcases call.exec_tables s.tables answer with ⟨_, outbox, _⟩ | ⟨result, eq, stage⟩
    · exact unchanged rfl rfl (Int.le_refl _) outbox
    · obtain ⟨m, payload, w⟩ := good.writing_of_stage stage
      refine h.grow rfl rfl (Int.le_refl _) call.pendingOutbox (by rw [eq]; rfl) ?_
      intro o ho
      obtain ⟨target, rfl⟩ := w.jobs o ho
      refine ⟨rfl, rfl, fun held => ?_⟩
      -- a job under this key would belong to the message that is not yet committed
      obtain ⟨o', ho', key⟩ := List.mem_map.mp held
      obtain ⟨r, hr, id, _⟩ := c.described o' ho'
      have same : o'.messageId = m.id := congrArg Prod.fst key
      exact c.pending_fresh mem w.pending (List.mem_map.mpr ⟨r, hr, id.trans same⟩)
  | claim target d token locked answer =>
    obtain ⟨fresh, rfl⟩ := step_claim hstep
    exact h.claim c.jobs fresh
  | complete d answer =>
    cases hstep
    exact h.finish c.jobs rfl rfl rfl rfl (fun _ => rfl) fun _ _ => ⟨rfl, rfl⟩
  | retry d delay answer =>
    cases hstep
    exact h.finish c.jobs rfl rfl rfl rfl (fun _ => rfl) fun _ undelivered => ⟨rfl,
      rfl, undelivered⟩

/-- **The leases agree with their history in every reachable state.** -/
theorem leases {s : Database codec} (h : (database codec).Reachable s) : Leases s := by
  refine h.invariant (I := Leases) ?_ ?_
  · intro s₀ init
    refine ⟨?_, ?_, ?_, ?_, ?_⟩
    · rw [init.log]
      exact trivial
    all_goals
      intro x hx
      simp only [init.log, init.outbox, List.not_mem_nil] at hx
  · intro s e t hs ih hstep
    exact leases_step (consistent hs) ih hstep

/-! ## Who holds a row -/

/-- The delivery's token is that of the last `Claim` of its row, no `Retry` and no `Complete` since
has carried it, and the row is not delivered. -/
def Holds (s : Database codec) (d : Delivery) : Prop :=
  (∃ newer time lease older,
    s.log = newer ++ .claimed time lease d.token (d.messageId, d.target) :: older ∧
    (∀ e ∈ newer, e.row = (d.messageId, d.target) → e.isClaim = false) ∧
    ∀ e ∈ newer, e.isClaim = false → e.token ≠ d.token) ∧
  ∃ o ∈ s.tables.outbox, o.key = (d.messageId, d.target) ∧ o.deliveredAt = none

/-- A claim in the history of leases is a claim in the log. -/
theorem split_ops {log : List Entry} {newer older : List (Op (Nat × String) String Time)}
    {t u : Time} {token : String} {row : Nat × String}
    (h : ops log = newer ++ .claimed t u token row :: older) :
    ∃ front lease back, log = front ++ .claimed t lease token row :: back ∧ newer = ops front := by
  obtain ⟨front, rest, rfl, hfront, hrest⟩ := List.map_eq_append_iff.mp h
  obtain ⟨e, back, rfl, he, _⟩ := List.map_eq_cons_iff.mp hrest
  cases e with
  | claimed t' lease token' row' =>
    cases he
    exact ⟨front, lease, back, rfl, hfront.symm⟩
  | released | delivered => cases he

/-- A release in the history of leases is a release in the log. -/
theorem released_of_ops {log : List Entry} {t a : Time} {token : String} {row : Nat × String}
    (h : .released t a token row ∈ ops log) : ∃ delay, .released t delay token row ∈ log := by
  obtain ⟨e, he, op⟩ := List.mem_map.mp h
  cases e with
  | released t' delay token' row' =>
    cases op
    exact ⟨delay, he⟩
  | claimed | delivered => cases op

/-- **A delivery holds its row exactly when the row still carries its token.** -/
theorem holds_iff {s : Database codec} (h : Leases s) (d : Delivery) :
    Holds s d ↔ s.tables.outbox.any (leased d) = true := by
  have owner := holder_iff h.history (d.messageId, d.target) d.token
  constructor
  · rintro ⟨⟨newer, time, lease, older, eq, lastClaim, unused⟩, _⟩
    have held : holder (ops s.log) (d.messageId, d.target) = some d.token := by
      refine owner.mpr ⟨ops newer, time, after time lease, ops older, ?_, ?_, ?_⟩
      · rw [eq, ops, List.map_append, List.map_cons]
        rfl
      · intro p hp
        obtain ⟨e, he, rfl⟩ := List.mem_map.mp hp
        simpa using lastClaim e he
      · intro p hp
        obtain ⟨e, he, rfl⟩ := List.mem_map.mp hp
        simpa using unused e he
    obtain ⟨t, u, last⟩ := holder_some held
    obtain ⟨mem, _⟩ := mem_of_latest last
    obtain ⟨e, he, op⟩ := List.mem_map.mp mem
    have row : e.row = (d.messageId, d.target) := by rw [← Entry.op_row, op]; rfl
    obtain ⟨o, ho, key⟩ := List.mem_map.mp (h.known e he)
    have agrees := h.rows o ho
    rw [key, row, last] at agrees
    refine List.any_eq_true.mpr ⟨o, ho, ?_⟩
    obtain ⟨id, target⟩ := Prod.mk.inj (key.trans row)
    simp only [leased, decide_eq_true_eq]
    exact ⟨id, target, agrees.1, agrees.2.2⟩
  · intro found
    obtain ⟨o, ho, held⟩ := List.any_eq_true.mp found
    simp only [leased, decide_eq_true_eq] at held
    obtain ⟨id, target, token, undelivered⟩ := held
    have key : o.key = (d.messageId, d.target) := by rw [OutboxRow.key, id, target]
    refine ⟨?_, o, ho, key, undelivered⟩
    obtain ⟨t, u, r, last⟩ := (h.rows o ho).claimed_of_token token
    rw [key] at last
    have held : holder (ops s.log) (d.messageId, d.target) = some d.token := by
      simp only [holder, last]
    obtain ⟨newer, t, u, older, eq, lastClaim, unused⟩ := owner.mp held
    obtain ⟨front, lease, back, split, rfl⟩ := split_ops eq
    refine ⟨front, t, lease, back, split, ?_, ?_⟩
    · intro e he row
      simpa using lastClaim e.op (List.mem_map_of_mem he) (by rw [Entry.op_row]; exact row)
    · intro e he noClaim
      simpa using unused e.op (List.mem_map_of_mem he) (by rw [Entry.op_isClaim]; exact noClaim)

/-- A delivery that holds its row finishes it. -/
theorem finish_of_holds {s : Database codec} (c : Consistent s) (h : Leases s) {d : Delivery}
    (holds : Holds s d) (set : OutboxRow codec.Payload → OutboxRow codec.Payload) :
    (finish s.tables.outbox d set .ok).2 = .ok () := by
  obtain ⟨o, ho, held⟩ := List.any_eq_true.mp ((holds_iff h d).mp holds)
  have one : s.tables.outbox.countP (leased d) = 1 := by
    rw [← Rows.countP_key c.jobs ho]
    refine List.countP_congr fun r hr => ?_
    simp only [decide_eq_true_eq]
    rw [leased_iff c.jobs ho held r hr]
    exact ⟨fun same => same ▸ rfl, fun key => Rows.eq_of_key c.jobs hr ho key⟩
  simp only [finish, one, ne_eq, not_true_eq_false, if_false]

/-- A delivery that does not hold its row is told so, and changes nothing. -/
theorem finish_of_not_holds {s : Database codec} (h : Leases s) {d : Delivery}
    (lost : ¬ Holds s d) (set : OutboxRow codec.Payload → OutboxRow codec.Payload) :
    (finish s.tables.outbox d set .ok).2 = .error .leaseLost ∧
      ∀ answer, (finish s.tables.outbox d set answer).1 = s.tables.outbox := by
  have none : ∀ r ∈ s.tables.outbox, leased d r = false := by
    intro r hr
    refine Bool.eq_false_iff.mpr fun held => lost ((holds_iff h d).mpr ?_)
    exact List.any_eq_true.mpr ⟨r, hr, held⟩
  constructor
  · have zero : s.tables.outbox.countP (leased d) = 0 :=
      List.countP_eq_zero.mpr fun r hr held => absurd (held.symm.trans (none r hr)) nofun
    simp only [finish, zero, ne_eq, Nat.zero_ne_one, not_false_eq_true, if_true]
  · intro answer
    rw [finish_table, Rows.update_eq_self none, ite_self]

/-- `Claim` changes rows of its own target only. -/
theorem claim_other_targets (outbox : List (OutboxRow codec.Payload)) (target : String)
    (d : Duration) (token : String) (locked : List (Nat × String)) (now : Time) (answer : Answer) :
    (claim codec outbox target d token locked now answer).1.filter (fun o => o.target ≠ target) =
      outbox.filter fun o => o.target ≠ target := by
  rcases claim_effect codec outbox target d token locked now answer with
    ⟨table, _⟩ | ⟨o, _, ⟨own, _⟩, table, _⟩
  · rw [table]
  · rw [table]
    refine Rows.filter_update fun r _ selected => ?_
    have same : r.target = target := by
      simp only [decide_eq_true_eq] at selected
      exact (congrArg Prod.snd selected).trans own
    simp only [lease, same, ne_eq, not_true_eq_false, decide_false, and_self]

/-- What a `Claim` that returns a delivery leaves in the history. -/
theorem claimEntry_of_claim {outbox : List (OutboxRow codec.Payload)} {target token : String}
    {l : Duration} {locked : List (Nat × String)} {now : Time} {answer : Answer} {d : Delivery}
    (h : (claim codec outbox target l token locked now answer).2 = .ok (some d)) :
    d.target = target ∧ d.token = token ∧
      claimEntry outbox target l token locked now answer =
        [.claimed now l token (d.messageId, d.target)] := by
  rcases claimStatement_cases outbox target l token locked now with eq | eq | ⟨o, _, ⟨own, _⟩, eq⟩
  · cases answer <;> simp [claim, eq] at h
  · cases answer <;> simp [claim, eq] at h
  · cases answer with
    | failed | lost => simp [claim, eq] at h
    | ok =>
      simp only [claim, eq] at h
      split at h
      · cases h
      · cases h
        refine ⟨rfl, rfl, ?_⟩
        simp only [claimEntry, eq, OutboxRow.key, lease, own]

/-- What a `Complete` or a `Retry` leaves in the history. -/
theorem finishEntry_of_holds {s : Database codec} (h : Leases s) (d : Delivery) (e : Entry) :
    (Holds s d → finishEntry s.tables.outbox d e .ok = [e]) ∧
      (¬ Holds s d → ∀ answer, finishEntry s.tables.outbox d e answer = []) := by
  rw [holds_iff h d]
  constructor
  · intro found
    simp only [finishEntry, found, ne_eq, reduceCtorEq, not_false_eq_true, and_self, if_true]
  · intro lost answer
    exact if_neg fun effect => lost effect.2

/-- **Exclusive leases and fencing**, in every reachable state. The history is in the order of the
clock, and records each `Claim` that returned a delivery and each `Complete` and `Retry` that
succeeded. Of two `Claim`s of one row, the later is a lease of whole milliseconds after the first,
or a `Retry` under the first one's token came between and it is not before the delay of that
`Retry`. `Complete` and `Retry` succeed when the delivery holds its row; otherwise they report the
lost lease, and whatever the answer the table and the history stay. A `Claim` leaves other targets'
rows alone. -/
theorem lease_exclusive {s : Database codec} (reach : (database codec).Reachable s) :
    (s.log.Pairwise fun e e' => e'.time ≤ e.time) ∧
    (∀ target l token locked d u, step codec s (.claim target l token locked .ok) = some u →
      (claim codec s.tables.outbox target l token locked s.now .ok).2 = .ok (some d) →
      d.target = target ∧ d.token = token ∧
      u.log = .claimed s.now l token (d.messageId, d.target) :: s.log) ∧
    (∀ front t₂ l₂ k₂ row mid t₁ l₁ k₁ back,
      s.log = front ++ .claimed t₂ l₂ k₂ row :: (mid ++ .claimed t₁ l₁ k₁ row :: back) →
      ((∀ t delay, .released t delay k₁ row ∉ mid) → after t₁ l₁ ≤ t₂) ∧
      ∀ t delay, .released t delay k₁ row ∈ mid → after t delay ≤ t₂) ∧
    (∀ d delay, Holds s d →
      (complete s.tables.outbox d s.now .ok).2 = .ok () ∧
      (retry s.tables.outbox d delay s.now .ok).2 = .ok () ∧
      (∀ u, step codec s (.complete d .ok) = some u →
        u.log = .delivered s.now d.token (d.messageId, d.target) :: s.log) ∧
      ∀ u, step codec s (.retry d delay .ok) = some u →
        u.log = .released s.now delay d.token (d.messageId, d.target) :: s.log) ∧
    (∀ d delay, ¬ Holds s d →
      (complete s.tables.outbox d s.now .ok).2 = .error .leaseLost ∧
      (retry s.tables.outbox d delay s.now .ok).2 = .error .leaseLost ∧
      ∀ answer u, step codec s (.complete d answer) = some u ∨
        step codec s (.retry d delay answer) = some u →
        u.tables.outbox = s.tables.outbox ∧ u.log = s.log) ∧
    (∀ target l token locked answer u, step codec s (.claim target l token locked answer) = some u →
      u.tables.outbox.filter (fun o => o.target ≠ target) =
        s.tables.outbox.filter fun o => o.target ≠ target) := by
  have c := consistent reach
  have h := leases reach
  refine ⟨?_, ?_, ?_, ?_, ?_, ?_⟩
  · have ordered := h.history.pairwise_time
    rw [ops, List.pairwise_map] at ordered
    simpa only [Entry.op_time] using ordered
  · intro target l token locked d u hstep returned
    obtain ⟨own, drawn, entry⟩ := claimEntry_of_claim returned
    obtain ⟨_, rfl⟩ := step_claim hstep
    exact ⟨own, drawn, by rw [entry]; rfl⟩
  · intro front t₂ l₂ k₂ row mid t₁ l₁ k₁ back eq
    have history := h.history
    rw [eq] at history
    simp only [ops, List.map_append, List.map_cons] at history
    obtain ⟨expired, due⟩ := History.exclusive history
    refine ⟨fun none => expired fun t a mem => ?_, fun t delay mem => ?_⟩
    · obtain ⟨delay, entry⟩ := released_of_ops mem
      exact none t delay entry
    · exact due t (after t delay) (List.mem_map_of_mem mem)
  · intro d delay holds
    refine ⟨finish_of_holds c h holds _, finish_of_holds c h holds _, ?_, ?_⟩
    all_goals
      intro u hstep
      cases hstep
      exact congrArg (· ++ s.log) ((finishEntry_of_holds h d _).1 holds)
  · intro d delay lost
    refine ⟨(finish_of_not_holds h lost _).1, (finish_of_not_holds h lost _).1, ?_⟩
    intro answer u hstep
    rcases hstep with hstep | hstep
    all_goals
      cases hstep
      exact ⟨(finish_of_not_holds h lost _).2 answer,
        congrArg (· ++ s.log) ((finishEntry_of_holds h d _).2 lost answer)⟩
  · intro target l token locked answer u hstep
    obtain ⟨_, rfl⟩ := step_claim hstep
    exact claim_other_targets ..

/-! ## Runs -/

/-- One message with one job. -/
def oneJob : List Event :=
  [.create "text" "" ["nats"] true, .exec 0 .ok, .exec 0 .ok, .exec 0 .ok]

/-- The job is claimed and released with a second's delay, claimed again when the delay is over, and
completed, first under the old token. -/
def releasedJob : List Event :=
  let d : Delivery := ⟨1, "nats", "t1", 1, ⟨1, "text", "", 0, "otus-app"⟩⟩
  oneJob ++ [.claim "nats" (45 * Duration.second) "t1" [] .ok, .retry d Duration.second .ok,
    .tick 1000000, .claim "nats" (45 * Duration.second) "t2" [] .ok, .complete d .ok,
    .complete { d with token := "t2" } .ok]

theorem lease_exclusive_released :
    ∃ s front mid back, (database plainCodec).Reachable s ∧
      s.log = front ++ .claimed 1000000 (45 * Duration.second) "t2" (1, "nats") ::
        (mid ++ .claimed 0 (45 * Duration.second) "t1" (1, "nats") :: back) ∧
      .released 0 Duration.second "t1" (1, "nats") ∈ mid ∧ after 0 Duration.second ≤ 1000000 := by
  have replayed : ∃ s, System.replay (step plainCodec) emptyDatabase releasedJob = some s ∧
      s.log = [.delivered 1000000 "t2" (1, "nats"),
        .claimed 1000000 (45 * Duration.second) "t2" (1, "nats"),
        .released 0 Duration.second "t1" (1, "nats"),
        .claimed 0 (45 * Duration.second) "t1" (1, "nats")] := ⟨_, rfl, rfl⟩
  obtain ⟨s, hs, log⟩ := replayed
  have reach : (database plainCodec).Reachable s :=
    ⟨emptyDatabase, initial_empty, System.Runs.of_replay hs⟩
  have between := (lease_exclusive reach).2.2.1 [_] _ _ _ _ [_] _ _ _ [] log
  exact ⟨s, [_], [_], [], reach, log, List.mem_singleton_self _,
    between.2 _ _ (List.mem_singleton_self _)⟩

/-- The job is claimed for a millisecond and a half, and again a millisecond later. -/
def fractionJob : List Event :=
  oneJob ++ [.claim "nats" 1500000 "t1" [] .ok, .tick 1000, .claim "nats" 1500000 "t2" [] .ok]

/-- **A fraction of a millisecond is not leased**: two `Claim`s of a row are less than the lease
apart, with nothing between them. Times are microseconds, the lease is in nanoseconds. -/
theorem lease_fraction :
    ∃ s, (database plainCodec).Reachable s ∧ ∃ t₁ t₂ l k₁ k₂ row,
      s.log = [.claimed t₂ l k₂ row, .claimed t₁ l k₁ row] ∧ t₁ < t₂ ∧
      1000 * t₂ < 1000 * t₁ + l := by
  have replayed : ∃ s, System.replay (step plainCodec) emptyDatabase fractionJob = some s ∧
      s.log = [.claimed 1000 1500000 "t2" (1, "nats"), .claimed 0 1500000 "t1" (1, "nats")] :=
    ⟨_, rfl, rfl⟩
  obtain ⟨s, hs, log⟩ := replayed
  refine ⟨s, ⟨emptyDatabase, initial_empty, System.Runs.of_replay hs⟩, 0, 1000, 1500000, "t1", "t2",
    (1, "nats"), log, ?_, ?_⟩
  · decide
  · decide

end OtusApp.Storage
