import OtusApp.Storage.Database
import OtusApp.Laws.Storage.Tables
import OtusApp.Laws.Storage.Outbox

/-!
# The consistency of the database

One invariant carries the transactional claims. `Call.Good` says what a call's position means: what
its open transaction has written, and what the committed tables hold once it has an answer.
`Consistent` adds what ties the calls together: the rows of `messages`, committed and pending, are
distinct in identifier and key; an outbox row belongs to a committed message and carries its event;
no two calls committed one row.

`consistent` is the invariant on every reachable state. It is proved one label at a time:
`Consistent.replace` is the step of a call, given what that call did to its own rows, and
`Consistent.of_jobs` the step of an outbox operation, which rewrites columns no part of the
invariant reads.
-/

namespace OtusApp.Storage

open Messaging Outbox Go Transition

variable {codec : EventCodec}

/-! ## The invariant -/

/-- The rows of `messages` that some transaction has written. -/
def written (messages : List MessageRow) (calls : List (Call codec.Payload)) : List MessageRow :=
  messages ++ calls.filterMap Call.pending

/-- No uncommitted writes. -/
def Call.Clean (c : Call codec.Payload) : Prop := c.pending = none ∧ c.pendingOutbox = []

/-- A call inside its loop over the targets, with `rest` still to come. -/
structure Call.Writing (c : Call codec.Payload) (m : Message) (payload : codec.Payload)
    (rest : List String) : Prop where
  pending : c.pending = some (c.messageRow m.id)
  message : m = (c.messageRow m.id).message true
  encoded : codec.marshal m.createdEvent = some payload
  jobs : ∀ o ∈ c.pendingOutbox, ∃ t, o = c.outboxRow m payload t
  distinct : (c.pendingOutbox.map OutboxRow.key).Nodup
  covered : ∀ t ∈ c.targets, t ∈ rest ∨ (m.id, t) ∈ c.pendingOutbox.map OutboxRow.key

/-- The committed row behind a successful answer. -/
structure Call.Answered (c : Call codec.Payload) (db : Tables codec.Payload) (m : Message)
    (row : MessageRow) : Prop where
  stored : row ∈ db.messages
  key : row.idemKey = nullIf c.key
  text : row.text = c.text
  same : m.id = row.id ∧ m.text = row.text ∧ m.checksum = row.textHash
  fresh : c.key = "" → c.committed = some row

/-- What a position means. -/
def Call.Position (c : Call codec.Payload) (db : Tables codec.Payload) : Phase codec.Payload → Prop
  | .inserting => c.Clean ∧ ¬ Blank c.text
  | .selecting => c.Clean ∧ ¬ Blank c.text ∧ c.key ≠ ""
  | .replaying m => c.Clean ∧ ¬ Blank c.text ∧ c.key ≠ "" ∧ ∃ row, c.Answered db m row
  | .enqueueing m payload rest => c.Writing m payload rest ∧ ¬ Blank c.text
  | .inDoubt => (∃ m payload, c.Writing m payload []) ∧ ¬ Blank c.text
  | .aborting err => ¬ Blank c.text ∧ err ≠ .emptyText ∧ (err = .idempotencyConflict → c.key ≠ "")
  | .finished (.ok m) => c.Clean ∧ ¬ Blank c.text ∧ ∃ row, c.Answered db m row
  | .finished (.error err) => c.Clean ∧ (err = .emptyText → Blank c.text) ∧
      (err = .idempotencyConflict → c.key ≠ "")

/-- The row a call committed, with the jobs it left. -/
structure Call.Committed (c : Call codec.Payload) (db : Tables codec.Payload) (row : MessageRow) :
    Prop where
  stored : row ∈ db.messages
  written : row = c.messageRow row.id
  valid : ¬ Blank c.text
  jobs : ∀ t ∈ c.targets, (row.id, t) ∈ db.outbox.map OutboxRow.key
  returned : ∃ result, c.phase = .finished result

/-- A call in a consistent position. -/
structure Call.Good (c : Call codec.Payload) (db : Tables codec.Payload) : Prop where
  position : c.Position db c.phase
  committed : ∀ row, c.committed = some row → c.Committed db row

/-- An outbox row whose message is committed and whose payload is that message's event. -/
def Described (codec : EventCodec) (messages : List MessageRow) (o : OutboxRow codec.Payload) :
    Prop :=
  ∃ r ∈ messages, r.id = o.messageId ∧ ¬ Blank r.text ∧ r.textHash = checksum r.text ∧
    codec.unmarshal o.payload = some (r.message true).createdEvent

/-- The invariant of the database. -/
structure Consistent (s : Database codec) : Prop where
  distinct : Distinct (written s.tables.messages s.calls) s.tables.seq
  hashed : ∀ r ∈ s.tables.messages, r.textHash ≠ ""
  jobs : (s.tables.outbox.map OutboxRow.key).Nodup
  described : ∀ o ∈ s.tables.outbox, Described codec s.tables.messages o
  calls : ∀ c ∈ s.calls, c.Good s.tables
  settled : ((s.calls.filterMap Call.committed).map MessageRow.id).Nodup

/-! ## Growing tables -/

/-- Tables that only grew: no message row is lost and no outbox key. -/
structure Grows (db db' : Tables codec.Payload) : Prop where
  messages : ∀ r ∈ db.messages, r ∈ db'.messages
  jobs : ∀ k ∈ db.outbox.map OutboxRow.key, k ∈ db'.outbox.map OutboxRow.key

theorem Grows.of_eq {db db' : Tables codec.Payload} (hm : db'.messages = db.messages)
    (ho : db'.outbox.map OutboxRow.key = db.outbox.map OutboxRow.key) : Grows db db' :=
  ⟨fun _ hr => hm ▸ hr, fun _ hk => ho ▸ hk⟩

theorem Call.Answered.mono {c : Call codec.Payload} {db db' : Tables codec.Payload} {m : Message}
    {row : MessageRow} (h : c.Answered db m row) (g : Grows db db') : c.Answered db' m row :=
  ⟨g.messages row h.stored, h.key, h.text, h.same, h.fresh⟩

/-- A call stays good while the tables grow around it. -/
theorem Call.Good.mono {c : Call codec.Payload} {db db' : Tables codec.Payload} (h : c.Good db)
    (g : Grows db db') : c.Good db' := by
  refine ⟨?_, ?_⟩
  · have position := h.position
    cases hp : c.phase with
    | replaying m =>
      rw [hp] at position
      obtain ⟨clean, valid, key, row, answered⟩ := position
      exact ⟨clean, valid, key, row, answered.mono g⟩
    | finished result =>
      rw [hp] at position
      cases result with
      | error err => exact position
      | ok m =>
        obtain ⟨clean, valid, row, answered⟩ := position
        exact ⟨clean, valid, row, answered.mono g⟩
    | _ =>
      rw [hp] at position
      exact position
  · intro row hrow
    have kept := h.committed row hrow
    exact ⟨g.messages row kept.stored, kept.written, kept.valid,
      fun t ht => g.jobs _ (kept.jobs t ht), kept.returned⟩

/-- An open call has committed nothing. -/
theorem Call.Good.uncommitted {c : Call codec.Payload} {db : Tables codec.Payload} (h : c.Good db)
    (running : ∀ result, c.phase ≠ .finished result) : c.committed = none := by
  cases hc : c.committed with
  | none => rfl
  | some row =>
    obtain ⟨result, returned⟩ := (h.committed row hc).returned
    exact absurd returned (running result)

/-! ## The step of a call -/

/-- The written rows around one call: its own pending row beside everyone else's. -/
theorem written_perm (messages : List MessageRow) (before after : List (Call codec.Payload))
    (c : Call codec.Payload) :
    (written messages (before ++ c :: after)).Perm
      (messages ++ (c.pending.toList ++ (before ++ after).filterMap Call.pending)) := by
  refine List.Perm.append_left messages ?_
  have middle : (before ++ c :: after).Perm (c :: (before ++ after)) := List.perm_middle
  have moved := middle.filterMap Call.pending
  cases hp : c.pending with
  | none => simpa only [List.filterMap_cons, hp, Option.toList_none, List.nil_append] using moved
  | some row =>
    simpa only [List.filterMap_cons, hp, Option.toList_some, List.singleton_append] using moved

/-- **The step of a call keeps the invariant**, given what the call did to its own rows: how its
pending row and the table changed together, that the tables grew, that the call is good where it
now stands, and which row it committed if it did. -/
theorem Consistent.replace {s : Database codec} (h : Consistent s) {i : Nat}
    {c c' : Call codec.Payload} {db' : Tables codec.Payload} (hc : s.calls[i]? = some c)
    (rows : ∀ others, (∀ r ∈ others, r ∈ s.calls.filterMap Call.pending) →
      Distinct (s.tables.messages ++ (c.pending.toList ++ others)) s.tables.seq →
      Distinct (db'.messages ++ (c'.pending.toList ++ others)) db'.seq)
    (hashed : ∀ r ∈ db'.messages, r.textHash ≠ "")
    (jobs : (db'.outbox.map OutboxRow.key).Nodup)
    (described : ∀ o ∈ db'.outbox, Described codec db'.messages o)
    (grows : Grows s.tables db') (good : c'.Good db')
    (committed : c'.committed = c.committed ∨
      (c.committed = none ∧ ∀ row, c'.committed = some row →
        row.id ∉ s.tables.messages.map MessageRow.id)) :
    Consistent { s with tables := db', calls := s.calls.set i c' } := by
  obtain ⟨before, after, split, _, set⟩ := Rows.split_at hc
  refine ⟨?_, hashed, jobs, described, ?_, ?_⟩
  · have old := h.distinct
    rw [split] at old
    have others : ∀ r ∈ (before ++ after).filterMap Call.pending,
        r ∈ s.calls.filterMap Call.pending := by
      intro r hr
      obtain ⟨other, mem, pending⟩ := List.mem_filterMap.mp hr
      refine List.mem_filterMap.mpr ⟨other, ?_, pending⟩
      rw [split]
      rcases List.mem_append.mp mem with mem | mem
      · exact List.mem_append_left _ mem
      · exact List.mem_append_right _ (List.mem_cons_of_mem _ mem)
    have new := rows _ others (old.perm (written_perm _ _ _ _))
    show Distinct (written db'.messages (s.calls.set i c')) db'.seq
    rw [set]
    exact new.perm (written_perm _ _ _ _).symm
  · intro d hd
    rw [show (s.calls.set i c') = before ++ c' :: after from set c'] at hd
    have old : ∀ x ∈ before ++ after, x.Good db' := by
      intro x hx
      refine (h.calls x ?_).mono grows
      rw [split]
      rcases List.mem_append.mp hx with hx | hx
      · exact List.mem_append_left _ hx
      · exact List.mem_append_right _ (List.mem_cons_of_mem _ hx)
    rcases List.mem_append.mp hd with hd | hd
    · exact old d (List.mem_append_left _ hd)
    · rcases List.mem_cons.mp hd with rfl | hd
      · exact good
      · exact old d (List.mem_append_right _ hd)
  · have old := h.settled
    show (((s.calls.set i c').filterMap Call.committed).map MessageRow.id).Nodup
    rw [set]
    rw [split] at old
    rcases committed with same | ⟨none, new⟩
    · have keep : (before ++ c' :: after).filterMap Call.committed =
          (before ++ c :: after).filterMap Call.committed := by
        simp only [List.filterMap_append, List.filterMap_cons, same]
      rw [keep]
      exact old
    · -- the new committed row is not in the table, where every earlier one is
      cases hrow : c'.committed with
      | none =>
        simp only [List.filterMap_append, List.filterMap_cons, hrow]
        simpa only [List.filterMap_append, List.filterMap_cons, none] using old
      | some row =>
        simp only [List.filterMap_append, List.filterMap_cons, none] at old
        simp only [List.filterMap_append, List.filterMap_cons, hrow]
        refine ((List.perm_middle.map MessageRow.id).nodup_iff).mpr ?_
        refine List.nodup_cons.mpr ⟨fun mem => ?_, old⟩
        obtain ⟨r, hr, same⟩ := List.mem_map.mp mem
        rw [← List.filterMap_append] at hr
        obtain ⟨x, hx, hxr⟩ := List.mem_filterMap.mp hr
        have stored : x.Good s.tables := by
          refine h.calls x ?_
          rw [split]
          rcases List.mem_append.mp hx with hx | hx
          · exact List.mem_append_left _ hx
          · exact List.mem_append_right _ (List.mem_cons_of_mem _ hx)
        refine new row hrow (List.mem_map.mpr ⟨r, (stored.committed r hxr).stored, same⟩)

/-- A step that leaves the written rows alone. -/
theorem Consistent.keep {s : Database codec} (h : Consistent s) {i : Nat}
    {c c' : Call codec.Payload} {db' : Tables codec.Payload} (hc : s.calls[i]? = some c)
    (messages : db'.messages = s.tables.messages) (outbox : db'.outbox = s.tables.outbox)
    (seq : s.tables.seq ≤ db'.seq) (pending : c'.pending = c.pending ∨ c'.pending = none)
    (committed : c'.committed = c.committed) (good : c'.Good s.tables) :
    Consistent { s with tables := db', calls := s.calls.set i c' } := by
  have grows : Grows s.tables db' := Grows.of_eq messages (by rw [outbox])
  refine h.replace hc ?_ ?_ ?_ ?_ grows (good.mono grows) (.inl committed)
  · intro others _ distinct
    rw [messages]
    rcases pending with same | dropped
    · rw [same]
      exact distinct.mono seq
    · rw [dropped]
      refine (distinct.sublist ?_).mono seq
      exact List.Sublist.append_left (List.sublist_append_right _ _) _
  · rw [messages]
    exact h.hashed
  · rw [outbox]
    exact h.jobs
  · rw [outbox, messages]
    exact h.described

/-- A pending row's identifier is not yet in the table. -/
theorem Consistent.pending_fresh {s : Database codec} (h : Consistent s) {c : Call codec.Payload}
    (hc : c ∈ s.calls) {row : MessageRow} (pending : c.pending = some row) :
    row.id ∉ s.tables.messages.map MessageRow.id := by
  intro mem
  have ids := h.distinct.ids
  rw [written, List.map_append] at ids
  have inPending : row.id ∈ (s.calls.filterMap Call.pending).map MessageRow.id :=
    List.mem_map_of_mem (List.mem_filterMap.mpr ⟨c, hc, pending⟩)
  exact List.disjoint_of_nodup_append ids mem inPending

/-- **The commit keeps the invariant**: the row and its jobs enter the tables together. -/
theorem Consistent.commit {s : Database codec} (h : Consistent s) {i : Nat} {c : Call codec.Payload}
    (hc : s.calls[i]? = some c) {m : Message} {payload : codec.Payload} (w : c.Writing m payload [])
    (valid : ¬ Blank c.text) (uncommitted : c.committed = none) {result : Except Err Message}
    (told : result = .ok m ∨ result = .error .database) :
    Consistent { s with
      tables := c.publish s.tables
      calls := s.calls.set i (c.settle result) } := by
  have mem : c ∈ s.calls := List.mem_of_getElem? hc
  have fresh := h.pending_fresh mem w.pending
  have messages : (c.publish s.tables).messages = s.tables.messages ++ [c.messageRow m.id] := by
    simp only [Call.publish, w.pending, Option.toList_some]
  have outbox : (c.publish s.tables).outbox = s.tables.outbox ++ c.pendingOutbox := rfl
  have stored : c.messageRow m.id ∈ (c.publish s.tables).messages := by
    rw [messages]
    exact List.mem_append_right _ (List.mem_singleton_self _)
  have grows : Grows s.tables (c.publish s.tables) := by
    refine ⟨fun r hr => ?_, fun k hk => ?_⟩
    · rw [messages]
      exact List.mem_append_left _ hr
    · rw [outbox, List.map_append]
      exact List.mem_append_left _ hk
  have committed : (c.settle result).committed = some (c.messageRow m.id) := w.pending
  refine h.replace hc ?_ ?_ ?_ ?_ grows ?_ (.inr ⟨uncommitted, ?_⟩)
  · -- the row moves from the transaction into the table
    intro others _ distinct
    rw [messages]
    rw [w.pending, Option.toList_some, ← List.append_assoc] at distinct
    exact distinct
  · intro r hr
    rw [messages] at hr
    rcases List.mem_append.mp hr with hr | hr
    · exact h.hashed r hr
    · rw [List.mem_singleton.mp hr]
      exact checksum_ne_empty c.text
  · -- a job of the new message has a key no committed job has, since its message is not committed
    rw [outbox, List.map_append]
    refine List.Nodup.append h.jobs w.distinct ?_
    intro k old new
    obtain ⟨o, ho, rfl⟩ := List.mem_map.mp old
    obtain ⟨o', ho', same⟩ := List.mem_map.mp new
    obtain ⟨t, rfl⟩ := w.jobs o' ho'
    obtain ⟨r, hr, id, _⟩ := h.described o ho
    have same' : m.id = o.messageId := congrArg Prod.fst same
    exact fresh (List.mem_map.mpr ⟨r, hr, id.trans same'.symm⟩)
  · intro o ho
    rw [outbox] at ho
    rcases List.mem_append.mp ho with ho | ho
    · obtain ⟨r, hr, rest⟩ := h.described o ho
      exact ⟨r, grows.messages r hr, rest⟩
    · obtain ⟨t, rfl⟩ := w.jobs o ho
      refine ⟨c.messageRow m.id, stored, rfl, valid, rfl, ?_⟩
      rw [← w.message]
      exact codec.unmarshal_marshal _ _ w.encoded
  · refine ⟨?_, ?_⟩
    · rcases told with rfl | rfl
      · refine ⟨⟨rfl, rfl⟩, valid, c.messageRow m.id, stored, rfl, rfl, ?_, fun _ => committed⟩
        rw [w.message]
        exact ⟨rfl, rfl, rfl⟩
      · exact ⟨⟨rfl, rfl⟩, nofun, nofun⟩
    · intro row hrow
      obtain rfl : c.messageRow m.id = row := Option.some.inj (committed.symm.trans hrow)
      refine ⟨stored, rfl, valid, fun t ht => ?_, ⟨result, rfl⟩⟩
      rw [outbox, List.map_append]
      rcases w.covered t ht with rest | job
      · cases rest
      · exact List.mem_append_right _ job
  · intro row hrow
    obtain rfl : c.messageRow m.id = row := Option.some.inj (committed.symm.trans hrow)
    exact fresh

/-- A call whose text has been validated, wherever it stands before its result. -/
theorem Call.Good.valid {c : Call codec.Payload} {db : Tables codec.Payload} (h : c.Good db)
    (running : ∀ result, c.phase ≠ .finished result) : ¬ Blank c.text := by
  have position := h.position
  cases hp : c.phase with
  | finished result => exact absurd hp (running result)
  | inserting => rw [hp] at position; exact position.2
  | selecting => rw [hp] at position; exact position.2.1
  | replaying m => rw [hp] at position; exact position.2.1
  | enqueueing m payload rest => rw [hp] at position; exact position.2
  | inDoubt => rw [hp] at position; exact position.2
  | aborting err => rw [hp] at position; exact position.1

/-- A running call that fails stands good in front of its rollback. -/
theorem Call.Good.fail {c : Call codec.Payload} {db : Tables codec.Payload} (h : c.Good db)
    (running : ∀ result, c.phase ≠ .finished result) {err : Err} (known : err ≠ .emptyText)
    (conflict : err = .idempotencyConflict → c.key ≠ "") : (c.fail err).Good db := by
  refine ⟨⟨h.valid running, known, conflict⟩, fun row hrow => ?_⟩
  have none : c.committed = none := h.uncommitted running
  exact absurd (hrow.symm.trans none) nofun

/-- A rolled back call. -/
theorem Call.Good.discard {c : Call codec.Payload} {db : Tables codec.Payload} (h : c.Good db)
    (running : ∀ result, c.phase ≠ .finished result) {err : Err} (known : err ≠ .emptyText)
    (conflict : err = .idempotencyConflict → c.key ≠ "") : (c.discard (.error err)).Good db := by
  refine ⟨⟨⟨rfl, rfl⟩, fun e => absurd e known, conflict⟩, fun row hrow => ?_⟩
  have none : c.committed = none := h.uncommitted running
  exact absurd (hrow.symm.trans none) nofun

/-- What the insert into `messages` can do: fail, yield to the row under its key, or write a row
under the next identifier and a key the table does not hold. -/
theorem Call.insertMessage_cases (c : Call codec.Payload) (db : Tables codec.Payload) :
    c.insertMessage codec db = (db, c.fail .database) ∨
    (c.key ≠ "" ∧
      c.insertMessage codec db = ({ db with seq := db.seq + 1 }, { c with phase := .selecting })) ∨
    ((∀ k, nullIf c.key = some k → ∀ r ∈ db.messages, r.idemKey ≠ some k) ∧
      ∃ phase, c.insertMessage codec db = ({ db with seq := db.seq + 1 },
        { c with pending := some (c.messageRow (db.seq + 1)), phase := phase }) ∧
      (phase = .aborting .database ∨ ∃ payload,
        codec.marshal ((c.messageRow (db.seq + 1)).message true).createdEvent = some payload ∧
        phase = .enqueueing ((c.messageRow (db.seq + 1)).message true) payload c.targets)) := by
  cases hn : nextval db.seq with
  | none => exact .inl (by simp only [Call.insertMessage, hn])
  | some id =>
    obtain rfl := nextval_some hn
    by_cases conflict : c.key ≠ "" ∧ (byKey db.messages c.key).isSome
    · refine .inr (.inl ⟨conflict.1, ?_⟩)
      simp only [Call.insertMessage, hn, conflict, ne_eq, not_false_eq_true, and_self, if_true]
    · refine .inr (.inr ⟨fun k hk => ?_, ?_⟩)
      · obtain ⟨rfl, ne⟩ := nullIf_eq_some hk
        have missing : byKey db.messages c.key = none := by
          cases found : byKey db.messages c.key with
          | none => rfl
          | some r => exact absurd ⟨ne, by rw [found]; rfl⟩ conflict
        exact byKey_none missing
      · cases hm : codec.marshal ((c.messageRow (db.seq + 1)).message true).createdEvent with
        | none =>
          refine ⟨.aborting .database, ?_, .inl rfl⟩
          simp only [Call.insertMessage, hn, if_neg conflict, hm, Call.fail]
        | some payload =>
          refine ⟨_, ?_, .inr ⟨payload, rfl, rfl⟩⟩
          simp only [Call.insertMessage, hn, if_neg conflict, hm]

/-- The insert keeps the invariant: the new row has the next identifier, and neither a committed
row nor a pending one has its key, or the call would have yielded or waited. -/
theorem Consistent.insert {s : Database codec} (h : Consistent s) {i : Nat}
    {c : Call codec.Payload} (hc : s.calls[i]? = some c) (hp : c.phase = .inserting)
    (free : c.waits s.calls .ok = false) :
    Consistent { s with
      tables := (c.insertMessage codec s.tables).1
      calls := s.calls.set i (c.insertMessage codec s.tables).2 } := by
  have good := h.calls c (List.mem_of_getElem? hc)
  have position := good.position
  rw [hp] at position
  obtain ⟨clean, valid⟩ := position
  have running : ∀ result, c.phase ≠ .finished result := by simp [hp]
  have none : c.committed = none := good.uncommitted running
  rcases c.insertMessage_cases s.tables with eq | ⟨key, eq⟩ | ⟨unused, phase, eq, next⟩
  · rw [eq]
    exact h.keep hc rfl rfl (Nat.le_refl _) (.inl rfl) rfl (good.fail running nofun nofun)
  · rw [eq]
    refine h.keep hc rfl rfl (Nat.le_succ _) (.inl rfl) rfl
      ⟨⟨clean, valid, key⟩, fun row hrow => ?_⟩
    exact absurd (hrow.symm.trans none) nofun
  · rw [eq]
    refine h.replace hc ?_ h.hashed h.jobs h.described (Grows.of_eq rfl rfl) ⟨?_, ?_⟩ (.inl rfl)
    · intro others sub distinct
      rw [clean.1, Option.toList_none, List.nil_append] at distinct
      refine Distinct.perm (distinct.cons (r := c.messageRow (s.tables.seq + 1)) rfl ?_)
        List.perm_middle.symm
      intro k hk old hold
      rcases List.mem_append.mp hold with hold | hold
      · exact unused k hk old hold
      · -- the key of an open transaction would have made this insert wait
        intro same
        obtain ⟨rfl, ne⟩ := nullIf_eq_some hk
        obtain ⟨other, mem, pending⟩ := List.mem_filterMap.mp (sub old hold)
        have waiting : c.waits s.calls .ok = true := by
          simp only [Call.waits, hp, decide_eq_true_eq, List.any_eq_true]
          refine ⟨ne, other, mem, ?_⟩
          simp only [pending, Option.any_some, same, decide_true]
        exact absurd (waiting.symm.trans free) nofun
    · rcases next with rfl | ⟨payload, encoded, rfl⟩
      · exact ⟨valid, nofun, nofun⟩
      · refine ⟨⟨rfl, rfl, encoded, ?_, ?_, fun t ht => .inl ht⟩, valid⟩
        · intro o ho
          rw [show (c.pendingOutbox : List _) = [] from clean.2] at ho
          cases ho
        · rw [show (c.pendingOutbox : List _) = [] from clean.2]
          exact List.nodup_nil
    · intro row hrow
      exact absurd (hrow.symm.trans none) nofun

/-- The fallback select: the row under the key answers the call, or its text differs. -/
theorem Call.Good.selectMessage {c : Call codec.Payload} {db : Tables codec.Payload}
    (h : c.Good db) (hp : c.phase = .selecting) : (c.selectMessage db).Good db := by
  have position := h.position
  rw [hp] at position
  obtain ⟨clean, valid, key⟩ := position
  have running : ∀ result, c.phase ≠ .finished result := by simp [hp]
  unfold Call.selectMessage
  cases found : byKey db.messages c.key with
  | none => exact h.fail running nofun nofun
  | some row =>
    obtain ⟨stored, under⟩ := byKey_some found
    by_cases same : row.text = c.text
    · simp only [ne_eq, same, not_true_eq_false, if_false]
      refine ⟨⟨clean, valid, key, row, stored, ?_, same, ⟨rfl, rfl, rfl⟩, ?_⟩, ?_⟩
      · rw [under, nullIf_of_ne key]
      · exact fun empty => absurd empty key
      · intro r hr
        exact absurd (hr.symm.trans (h.uncommitted running)) nofun
    · simp only [ne_eq, same, not_false_eq_true, if_true]
      exact h.fail running nofun fun _ => key

/-- One turn of the loop over the targets. -/
theorem Call.Writing.insertOutbox {c : Call codec.Payload} {db : Tables codec.Payload}
    (h : c.Good db) {m : Message} {payload : codec.Payload} {target : String} {rest : List String}
    (hp : c.phase = .enqueueing m payload (target :: rest))
    (fresh : m.id ∉ db.outbox.map OutboxRow.messageId) :
    (c.insertOutbox db m payload target rest).Good db := by
  have position := h.position
  rw [hp] at position
  obtain ⟨w, valid⟩ := position
  have running : ∀ result, c.phase ≠ .finished result := by simp [hp]
  have none : ∀ row, c.committed ≠ some row := by simp [h.uncommitted running]
  unfold Call.insertOutbox
  split
  · exact h.fail running nofun nofun
  split
  · next held =>
    -- the key is already in the table, and not as a committed row
    have own : (m.id, target) ∈ c.pendingOutbox.map OutboxRow.key := by
      rw [List.map_append] at held
      rcases List.mem_append.mp held with held | held
      · obtain ⟨o, ho, same⟩ := List.mem_map.mp held
        exact absurd (List.mem_map.mpr ⟨o, ho, congrArg Prod.fst same⟩) fresh
      · exact held
    refine ⟨⟨⟨w.pending, w.message, w.encoded, w.jobs, w.distinct, ?_⟩, valid⟩,
      fun row hrow => absurd hrow (none row)⟩
    intro t ht
    rcases w.covered t ht with more | job
    · rcases List.mem_cons.mp more with rfl | more
      · exact .inr own
      · exact .inl more
    · exact .inr job
  · next absent =>
    refine ⟨⟨⟨w.pending, w.message, w.encoded, ?_, ?_, ?_⟩, valid⟩,
      fun row hrow => absurd hrow (none row)⟩
    · intro o ho
      rcases List.mem_append.mp ho with ho | ho
      · exact w.jobs o ho
      · exact ⟨target, List.mem_singleton.mp ho⟩
    · rw [List.map_append]
      refine List.Nodup.append w.distinct (List.nodup_singleton _) ?_
      intro k own new
      have key : k = (m.id, target) := List.mem_singleton.mp new
      rw [key] at own
      exact absent (by rw [List.map_append]; exact List.mem_append_right _ own)
    · intro t ht
      rw [List.map_append]
      rcases w.covered t ht with more | job
      · rcases List.mem_cons.mp more with rfl | more
        · exact .inr (List.mem_append_right _ (List.mem_singleton_self _))
        · exact .inl more
      · exact .inr (List.mem_append_left _ job)

/-- **Every statement of every call keeps the invariant.** -/
theorem Consistent.exec {s : Database codec} (h : Consistent s) {i : Nat} {c : Call codec.Payload}
    (hc : s.calls[i]? = some c) {answer : Answer} (free : c.waits s.calls answer = false) :
    Consistent { s with
      tables := (c.exec codec s.tables answer).1
      calls := s.calls.set i (c.exec codec s.tables answer).2 } := by
  have mem : c ∈ s.calls := List.mem_of_getElem? hc
  have good := h.calls c mem
  have position := good.position
  -- the two ways a call stops short: in front of its rollback, or rolled back
  have failing : (∀ result, c.phase ≠ .finished result) → ∀ seq, s.tables.seq ≤ seq →
      Consistent { s with
        tables := { s.tables with seq := seq }, calls := s.calls.set i (c.fail .database) } := by
    intro running seq le
    exact h.keep hc rfl rfl le (.inl rfl) rfl (good.fail running nofun nofun)
  cases hp : c.phase with
  | inserting =>
    have running : ∀ result, c.phase ≠ .finished result := by simp [hp]
    cases answer with
    | ok =>
      simp only [Call.exec, hp]
      exact h.insert hc hp free
    | failed =>
      simp only [Call.exec, hp]
      exact failing running _ (Nat.le_refl _)
    | lost =>
      simp only [Call.exec, hp]
      refine failing running _ ?_
      cases hn : nextval s.tables.seq with
      | none => exact Nat.le_refl _
      | some id =>
        rw [nextval_some hn]
        exact Nat.le_succ _
  | selecting =>
    have running : ∀ result, c.phase ≠ .finished result := by simp [hp]
    cases answer with
    | ok =>
      simp only [Call.exec, hp]
      have clean := position
      rw [hp] at clean
      refine h.keep hc rfl rfl (Nat.le_refl _) ?_ ?_ (good.selectMessage hp)
      · unfold Call.selectMessage
        split
        · exact .inl rfl
        · split <;> exact .inl rfl
      · unfold Call.selectMessage
        split
        · rfl
        · split <;> rfl
    | failed | lost =>
      simp only [Call.exec, hp]
      exact failing running _ (Nat.le_refl _)
  | replaying m =>
    have running : ∀ result, c.phase ≠ .finished result := by simp [hp]
    rw [hp] at position
    obtain ⟨clean, valid, key, row, answered⟩ := position
    cases answer with
    | ok =>
      simp only [Call.exec, hp]
      refine h.keep hc rfl rfl (Nat.le_refl _) (.inr rfl) rfl ⟨⟨⟨rfl, rfl⟩, valid, row, ?_⟩, ?_⟩
      · exact ⟨answered.stored, answered.key, answered.text, answered.same,
          fun empty => absurd empty key⟩
      · intro r hr
        exact absurd (hr.symm.trans (good.uncommitted running)) nofun
    | failed | lost =>
      simp only [Call.exec, hp]
      exact failing running _ (Nat.le_refl _)
  | enqueueing m payload rest =>
    have running : ∀ result, c.phase ≠ .finished result := by simp [hp]
    rw [hp] at position
    obtain ⟨w, valid⟩ := position
    cases rest with
    | cons target rest =>
      cases answer with
      | ok =>
        simp only [Call.exec, hp]
        have fresh : m.id ∉ s.tables.outbox.map OutboxRow.messageId := by
          intro held
          obtain ⟨o, ho, same⟩ := List.mem_map.mp held
          obtain ⟨r, hr, id, _⟩ := h.described o ho
          exact h.pending_fresh mem w.pending (List.mem_map.mpr ⟨r, hr, id.trans same⟩)
        refine h.keep hc rfl rfl (Nat.le_refl _) ?_ ?_ (Call.Writing.insertOutbox good hp fresh)
        · unfold Call.insertOutbox
          split
          · exact .inl rfl
          · split <;> exact .inl rfl
        · unfold Call.insertOutbox
          split
          · rfl
          · split <;> rfl
      | failed | lost =>
        simp only [Call.exec, hp]
        exact failing running _ (Nat.le_refl _)
    | nil =>
      cases answer with
      | ok =>
        simp only [Call.exec, hp]
        exact h.commit hc w valid (good.uncommitted running) (.inl rfl)
      | failed =>
        simp only [Call.exec, hp]
        exact failing running _ (Nat.le_refl _)
      | lost =>
        simp only [Call.exec, hp]
        refine h.keep hc rfl rfl (Nat.le_refl _) (.inl rfl) rfl ⟨⟨⟨m, payload, ?_⟩, valid⟩, ?_⟩
        · exact ⟨w.pending, w.message, w.encoded, w.jobs, w.distinct, w.covered⟩
        · intro r hr
          exact absurd (hr.symm.trans (good.uncommitted running)) nofun
  | inDoubt =>
    have running : ∀ result, c.phase ≠ .finished result := by simp [hp]
    rw [hp] at position
    obtain ⟨⟨m, payload, w⟩, valid⟩ := position
    cases answer with
    | failed =>
      simp only [Call.exec, hp]
      exact h.keep hc rfl rfl (Nat.le_refl _) (.inr rfl) rfl (good.discard running nofun nofun)
    | ok | lost =>
      simp only [Call.exec, hp]
      exact h.commit hc w valid (good.uncommitted running) (.inr rfl)
  | aborting err =>
    have running : ∀ result, c.phase ≠ .finished result := by simp [hp]
    rw [hp] at position
    obtain ⟨_, known, conflict⟩ := position
    simp only [Call.exec, hp]
    exact h.keep hc rfl rfl (Nat.le_refl _) (.inr rfl) rfl (good.discard running known conflict)
  | finished result =>
    simp only [Call.exec, hp]
    exact h.keep hc rfl rfl (Nat.le_refl _) (.inl rfl) rfl good

/-! ## The other steps -/

/-- A crash rolls a running call back and leaves a decided one alone. -/
theorem Consistent.crash {s : Database codec} (h : Consistent s) {i : Nat} {c : Call codec.Payload}
    (hc : s.calls[i]? = some c) : Consistent { s with calls := s.calls.set i c.crash } := by
  have good := h.calls c (List.mem_of_getElem? hc)
  have stays : Consistent { s with calls := s.calls.set i c } :=
    h.keep hc rfl rfl (Nat.le_refl _) (.inl rfl) rfl good
  have drops : (∀ result, c.phase ≠ .finished result) →
      Consistent { s with calls := s.calls.set i (c.discard (.error .database)) } := by
    intro running
    exact h.keep hc rfl rfl (Nat.le_refl _) (.inr rfl) rfl (good.discard running nofun nofun)
  unfold Call.crash
  split
  · exact stays
  · exact stays
  · next notFinished _ => exact drops notFinished

/-- A new call has written nothing. -/
theorem Consistent.create {s : Database codec} (h : Consistent s) (text key : String)
    (targets : List String) (begun : Bool) :
    Consistent { s with calls := s.calls ++ [Call.start text key targets s.now begun] } := by
  have pending : (s.calls ++ [Call.start text key targets s.now begun]).filterMap Call.pending =
      s.calls.filterMap Call.pending := by
    rw [List.filterMap_append]
    exact List.append_nil _
  have committed : (s.calls ++ [Call.start text key targets s.now begun]).filterMap Call.committed =
      s.calls.filterMap Call.committed := by
    rw [List.filterMap_append]
    exact List.append_nil _
  refine ⟨?_, h.hashed, h.jobs, h.described, ?_, ?_⟩
  · show Distinct (_ ++ List.filterMap Call.pending (s.calls ++ _)) _
    rw [pending]
    exact h.distinct
  · intro c hc
    rcases List.mem_append.mp hc with hc | hc
    · exact h.calls c hc
    · rw [List.mem_singleton.mp hc]
      refine ⟨?_, nofun⟩
      simp only [Call.start, validateText]
      by_cases blank : Blank text
      · simp only [blank, if_true]
        exact ⟨⟨rfl, rfl⟩, fun _ => blank, nofun⟩
      · simp only [blank, if_false]
        cases begun with
        | true => exact ⟨⟨rfl, rfl⟩, blank⟩
        | false => exact ⟨⟨rfl, rfl⟩, nofun, nofun⟩
  · show (List.map _ (List.filterMap Call.committed (s.calls ++ _))).Nodup
    rw [committed]
    exact h.settled

/-- **An outbox operation keeps the invariant**: it rewrites neither keys nor payloads. -/
theorem Consistent.of_jobs {s : Database codec} (h : Consistent s)
    {outbox : List (OutboxRow codec.Payload)}
    (same : outbox.map OutboxRow.job = s.tables.outbox.map OutboxRow.job)
    (now : Time) (tokens : List String) (log : List Entry) :
    Consistent
      (⟨{ s.tables with outbox := outbox }, now, s.calls, tokens, log⟩ : Database codec) := by
  have keys : outbox.map OutboxRow.key = s.tables.outbox.map OutboxRow.key := by
    have := congrArg (List.map Prod.fst) same
    simpa only [List.map_map, Function.comp_def, OutboxRow.job] using this
  have grows : Grows s.tables { s.tables with outbox := outbox } := Grows.of_eq rfl keys
  refine ⟨h.distinct, h.hashed, ?_, ?_, fun c hc => (h.calls c hc).mono grows, h.settled⟩
  · show (outbox.map OutboxRow.key).Nodup
    rw [keys]
    exact h.jobs
  · intro o ho
    have job : o.job ∈ s.tables.outbox.map OutboxRow.job := by
      rw [← same]
      exact List.mem_map_of_mem ho
    obtain ⟨old, hold, eq⟩ := List.mem_map.mp job
    have id : old.messageId = o.messageId := congrArg (fun j => j.1.1) eq
    have payload : old.payload = o.payload := congrArg Prod.snd eq
    have described := h.described old hold
    rw [Described, id, payload] at described
    exact described

/-! ## Every reachable state -/

theorem step_exec {s t : Database codec} {i : Nat} {answer : Answer}
    (h : step codec s (.exec i answer) = some t) :
    ∃ c, s.calls[i]? = some c ∧ c.waits s.calls answer = false ∧
      t = { s with
        tables := (c.exec codec s.tables answer).1
        calls := s.calls.set i (c.exec codec s.tables answer).2 } := by
  cases hc : s.calls[i]? with
  | none => simp only [step, hc, reduceCtorEq] at h
  | some c =>
    cases waiting : c.waits s.calls answer with
    | true => simp only [step, hc, waiting, if_true, reduceCtorEq] at h
    | false =>
      simp only [step, hc, waiting, Bool.false_eq_true, if_false, Option.some.injEq] at h
      exact ⟨c, rfl, waiting, h.symm⟩

theorem step_exec_of {s : Database codec} {i : Nat} {c : Call codec.Payload} {answer : Answer}
    (hc : s.calls[i]? = some c) (free : c.waits s.calls answer = false) :
    step codec s (.exec i answer) = some { s with
      tables := (c.exec codec s.tables answer).1
      calls := s.calls.set i (c.exec codec s.tables answer).2 } := by
  simp only [step, hc, free, Bool.false_eq_true, if_false]

theorem step_crash {s t : Database codec} {i : Nat} (h : step codec s (.crash i) = some t) :
    ∃ c, s.calls[i]? = some c ∧ t = { s with calls := s.calls.set i c.crash } := by
  cases hc : s.calls[i]? with
  | none => simp only [step, hc, reduceCtorEq] at h
  | some c =>
    simp only [step, hc, Option.some.injEq] at h
    exact ⟨c, rfl, h.symm⟩

theorem step_claim {s t : Database codec} {target token : String} {d : Duration}
    {locked : List (Nat × String)} {answer : Answer}
    (h : step codec s (.claim target d token locked answer) = some t) :
    token ∉ s.tokens ∧ t = { s with
      tables := { s.tables with
        outbox := (claim codec s.tables.outbox target d token locked s.now answer).1 }
      tokens := token :: s.tokens
      log := claimEntry s.tables.outbox target d token locked s.now answer ++ s.log } := by
  by_cases drawn : token ∈ s.tokens
  · simp only [step, drawn, if_true, reduceCtorEq] at h
  · simp only [step, drawn, if_false, Option.some.injEq] at h
    exact ⟨drawn, h.symm⟩

/-- The call a label is a step of. -/
def Event.call : Event → Option Nat
  | .exec i _ => some i
  | .crash i => some i
  | _ => none

theorem call_of_step {s t : Database codec} {e : Event} {i : Nat} (own : e.call = some i)
    (hstep : step codec s e = some t) : ∃ c, s.calls[i]? = some c := by
  cases e with
  | exec j answer =>
    cases own
    obtain ⟨c, hc, _⟩ := step_exec hstep
    exact ⟨c, hc⟩
  | crash j =>
    cases own
    obtain ⟨c, hc, _⟩ := step_crash hstep
    exact ⟨c, hc⟩
  | tick | migrate | create | claim | complete | retry => cases own

/-- A label that is not a step of a call leaves that call alone. -/
theorem call_of_other_step {s t : Database codec} {e : Event} {i : Nat} (other : e.call ≠ some i)
    (hstep : step codec s e = some t) {c : Call codec.Payload} (hc : s.calls[i]? = some c) :
    t.calls[i]? = some c := by
  cases e with
  | exec j answer =>
    obtain ⟨c', _, _, rfl⟩ := step_exec hstep
    have ne : j ≠ i := fun same => other (congrArg some same)
    simpa only [List.getElem?_set_ne ne] using hc
  | crash j =>
    obtain ⟨c', _, rfl⟩ := step_crash hstep
    have ne : j ≠ i := fun same => other (congrArg some same)
    simpa only [List.getElem?_set_ne ne] using hc
  | create text key targets begun =>
    cases hstep
    have hi : i < s.calls.length := (List.getElem?_eq_some_iff.mp hc).1
    simpa only [List.getElem?_append_left hi] using hc
  | claim target d token locked answer =>
    obtain ⟨_, rfl⟩ := step_claim hstep
    exact hc
  | tick | migrate | complete | retry =>
    cases hstep
    exact hc

theorem consistent_initial {s : Database codec} (h : Initial s) : Consistent s := by
  obtain ⟨older, migrated⟩ := h.migrated
  refine ⟨?_, ?_, ?_, ?_, ?_, ?_⟩
  · rw [written, h.calls, List.filterMap_nil, List.append_nil]
    exact ⟨h.schema.messageIds, h.schema.idemKeys, h.schema.sequence⟩
  · intro r hr
    rw [migrated] at hr
    exact textHash_of_mem_migrate hr
  · exact h.schema.outboxKeys
  · intro o ho
    rw [h.outbox] at ho
    cases ho
  · intro c hc
    rw [h.calls] at hc
    cases hc
  · rw [h.calls]
    exact List.nodup_nil

/-- One label keeps the invariant. -/
theorem consistent_step {s t : Database codec} {e : Event} (h : Consistent s)
    (hstep : step codec s e = some t) : Consistent t := by
  cases e with
  | tick elapsed =>
    cases hstep
    exact ⟨h.distinct, h.hashed, h.jobs, h.described, h.calls, h.settled⟩
  | migrate =>
    cases hstep
    rw [migrate_eq_self h.hashed]
    exact ⟨h.distinct, h.hashed, h.jobs, h.described, h.calls, h.settled⟩
  | create text key targets begun =>
    cases hstep
    exact h.create text key targets begun
  | exec i answer =>
    obtain ⟨c, hc, free, rfl⟩ := step_exec hstep
    exact h.exec hc free
  | crash i =>
    obtain ⟨c, hc, rfl⟩ := step_crash hstep
    exact h.crash hc
  | claim target d token locked answer =>
    obtain ⟨_, rfl⟩ := step_claim hstep
    exact h.of_jobs (claim_jobs ..) _ _ _
  | complete d answer =>
    cases hstep
    exact h.of_jobs (complete_jobs ..) _ _ _
  | retry d delay answer =>
    cases hstep
    exact h.of_jobs (retry_jobs ..) _ _ _

/-- **The invariant of the database holds in every reachable state.** -/
theorem consistent {s : Database codec} (h : (database codec).Reachable s) : Consistent s := by
  refine h.invariant (I := Consistent) (fun _ h₀ => consistent_initial h₀) ?_
  intro s e t _ ih hstep
  exact consistent_step ih hstep

end OtusApp.Storage
