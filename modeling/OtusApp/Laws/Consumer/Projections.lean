import OtusApp.Consumer.Handle

/-!
# The projections converge

Whatever the consumers' runs do, each of the three stores is the table of the writes that took
effect (`held`), and every such write carries the event of some run (`issued`). Events with one
identifier are one event, so the writes under one key differ in the producer at most. What the
stores then show follows from one lemma about a store whose rows are made of events
(`Projects.shows`).
-/

namespace OtusApp.Projection

open Messaging Cstore Program Transition

/-! ## What the stores hold -/

/-- The batches among the writes. -/
def batches (writes : List Write) : List (MessageCreated × String) :=
  writes.filterMap fun
    | .batch ev producer => some (ev, producer)
    | .document _ => none

/-- The documents among the writes. -/
def documents (writes : List Write) : List Search.Document :=
  writes.filterMap fun
    | .batch .. => none
    | .document doc => some doc

theorem mem_batches {writes : List Write} {ev : MessageCreated} {producer : String} :
    (ev, producer) ∈ batches writes ↔ .batch ev producer ∈ writes := by
  rw [batches, List.mem_filterMap]
  constructor
  · rintro ⟨x, mem, eq⟩
    cases x with
    | batch ev' producer' =>
      cases eq
      exact mem
    | document => cases eq
  · intro mem
    exact ⟨_, mem, rfl⟩

theorem mem_documents {writes : List Write} {doc : Search.Document} :
    doc ∈ documents writes ↔ .document doc ∈ writes := by
  rw [documents, List.mem_filterMap]
  constructor
  · rintro ⟨x, mem, eq⟩
    cases x with
    | batch => cases eq
    | document doc' =>
      cases eq
      exact mem
  · intro mem
    exact ⟨_, mem, rfl⟩

/-- The entry of a document in the index. -/
def entry (doc : Search.Document) : String × Search.Document := (doc.docId, doc)

/-- Each store is the table of the writes to it, and only what was sent is written. -/
structure Held (s : Stores) : Prop where
  messageEvents : s.cassandra.messageEvents =
    Upsert.table FeedRow.key ((batches s.written).map fun b => feedRow b.1 b.2)
  eventsById : s.cassandra.eventsById =
    Upsert.table EventRow.id ((batches s.written).map fun b => eventRow b.1 b.2)
  messages : s.messages = Upsert.table Prod.fst ((documents s.written).map entry)
  sent : s.written ⊆ s.sent

theorem written_apply (s : Stores) (x : Write) : (s.apply x).written = x :: s.written := by
  cases x <;> rfl

theorem sent_apply (s : Stores) (x : Write) : (s.apply x).sent = s.sent := by
  cases x <;> rfl

theorem Held.send {s : Stores} (h : Held s) (x : Write) : Held { s with sent := s.sent ++ [x] } :=
  ⟨h.messageEvents, h.eventsById, h.messages, fun _ mem => List.mem_append_left _ (h.sent mem)⟩

theorem Held.apply {s : Stores} (h : Held s) {x : Write} (mem : x ∈ s.sent) : Held (s.apply x) := by
  have sent : (s.apply x).written ⊆ (s.apply x).sent := by
    rw [written_apply, sent_apply]
    exact List.cons_subset.mpr ⟨mem, h.sent⟩
  cases x with
  | batch ev producer =>
    refine ⟨?_, ?_, h.messages, sent⟩
    · exact congrArg (Upsert.put FeedRow.key · (feedRow ev producer)) h.messageEvents
    · exact congrArg (Upsert.put EventRow.id · (eventRow ev producer)) h.eventsById
  | document doc =>
    exact ⟨h.messageEvents, h.eventsById,
      congrArg (Upsert.put Prod.fst · (entry doc)) h.messages, sent⟩

/-- What becomes of the stores: a write is sent, or one that was sent takes effect. -/
inductive Stepped (s : Stores) : Stores → Prop
  | same : Stepped s s
  | send (x : Write) : Stepped s { s with sent := s.sent ++ [x] }
  | done (x : Write) : Stepped s ({ s with sent := s.sent ++ [x] }.apply x)
  | again (x : Write) (mem : x ∈ s.sent) : Stepped s (s.apply x)

theorem Stepped.held {s t : Stores} (step : Stepped s t) (h : Held s) : Held t := by
  cases step with
  | same => exact h
  | send x => exact h.send x
  | done x => exact (h.send x).apply (List.mem_append_right _ List.mem_cons_self)
  | again x mem => exact h.apply mem

theorem Stepped.written {s t : Stores} (step : Stepped s t) : s.written ⊆ t.written := by
  cases step with
  | same => exact List.Subset.refl _
  | send x => exact List.Subset.refl _
  | done x | again x =>
    rw [written_apply]
    exact List.subset_cons_self x _

theorem answer_stepped (s : Stores) (x : Write) (f : Fate) :
    Stepped s (answer s x f).2 ∧ (answer s x f).2.sent = s.sent ++ [x] ∧
      ((answer s x f).1 = true → x ∈ (answer s x f).2.written) := by
  cases f with
  | done => exact ⟨.done x, sent_apply _ x, fun _ => written_apply _ x ▸ List.mem_cons_self⟩
  | failed => exact ⟨.send x, rfl, Bool.noConfusion⟩
  | lost => exact ⟨.done x, sent_apply _ x, Bool.noConfusion⟩

theorem respond_stepped {s t : Stores} {caller : Nat × Config × MessageCreated} {x : Write}
    {c : Fate} {r : Bool} (h : machine.respond s caller x c = some (r, t)) :
    Stepped s t ∧ t.sent = s.sent ++ [x] ∧
      (r = true → x ∈ t.written) := by
  have same : answer s x c = (r, t) := Option.some.inj h
  have stepped := answer_stepped s x c
  rwa [same] at stepped

theorem again_stepped {s t : Stores} {k : Nat} (h : machine.background s k = some t) :
    Stepped s t ∧ t.sent = s.sent := by
  obtain ⟨x, found, rfl⟩ := Option.map_eq_some_iff.mp h
  exact ⟨.again x (List.mem_of_getElem? found), sent_apply s x⟩

theorem stepped_env {w w' : State} {mv : Move (Config × MessageCreated) Fate Nat}
    (h : machine.step w mv = some w') : Stepped w.env w'.env := by
  cases Machine.stepped h with
  | arrive taken =>
    cases taken
    exact .same
  | go runs answers => exact (respond_stepped answers).1
  | background moves => exact (again_stepped moves).1

theorem held {w : State} (h : consumers.Reachable w) : Held w.env := by
  refine h.invariant (I := fun w => Held w.env) ?_ ?_
  · rintro w ⟨start, _⟩
    rw [start]
    exact ⟨rfl, rfl, rfl, List.nil_subset _⟩
  · intro w mv w' _ ih step
    exact (stepped_env step).held ih

/-! ## Whose writes they are -/

/-- The write carries the event of the run. -/
def Carries (q : Config × MessageCreated) : Write → Prop
  | .batch ev producer => ev = q.2 ∧ producer = q.1.broker
  | .document doc => doc = document q.2 q.1.broker

theorem handleIndex_carries (cfg : Config) (ev : MessageCreated) :
    (handleIndex cfg ev).All (Carries (cfg, ev)) := by
  rw [handleIndex]
  split
  · exact ⟨rfl, fun _ => trivial⟩
  · exact trivial

theorem handle_carries (cfg : Config) (ev : MessageCreated) :
    (handle cfg ev).All (Carries (cfg, ev)) := by
  rw [handle]
  split
  · refine ⟨⟨rfl, rfl⟩, fun saved => ?_⟩
    cases saved with
    | false => exact trivial
    | true => exact handleIndex_carries cfg ev
  · exact handleIndex_carries cfg ev

/-- Whatever was sent carries the event of some run. -/
theorem issued {w : State} (h : consumers.Reachable w) :
    ∀ x ∈ w.env.sent, ∃ q p, (q, p) ∈ w.procs ∧ Carries q x := by
  refine h.invariant (I := fun w => ∀ x ∈ w.env.sent, ∃ q p, (q, p) ∈ w.procs ∧ Carries q x) ?_ ?_
  · rintro w ⟨start, _⟩ x mem
    rw [start] at mem
    cases mem
  · intro w mv w' reached ih step x mem
    -- a run keeps its place, whatever is left of it
    have kept : (∃ q p, (q, p) ∈ w.procs ∧ Carries q x) → ∃ q p, (q, p) ∈ w'.procs ∧
        Carries q x := by
      rintro ⟨q, p, runs, carries⟩
      obtain ⟨i, entry⟩ := List.getElem?_of_mem runs
      obtain ⟨p', entry'⟩ := Machine.request_kept step entry
      exact ⟨q, p', List.mem_of_getElem? entry', carries⟩
    refine kept ?_
    cases Machine.stepped step with
    | arrive taken =>
      cases taken
      exact ih x mem
    | @go i c q e k r env runs answers =>
      change x ∈ env.sent at mem
      rw [(respond_stepped answers).2.1] at mem
      rcases List.mem_append.mp mem with old | new
      · exact ih x old
      · obtain rfl := List.mem_singleton.mp new
        have running := List.mem_of_getElem? runs
        have asked := Machine.asks (fun q => handle_carries q.1 q.2) reached q _ running
        exact ⟨q, _, running, asked.1⟩
    | @background k env moves =>
      change x ∈ env.sent at mem
      rw [(again_stepped moves).2] at mem
      exact ih x mem

/-! ## What a store of events shows -/

/-- The events are told apart by their identifiers. -/
def Identical (events : MessageCreated → Prop) : Prop :=
  ∀ ev ev', events ev → events ev' → ev.id = ev'.id → ev = ev'

/-- A store holds one row for each of the events, made of it, and no other. -/
structure Shows {α : Type} (events : MessageCreated → Prop) (id : α → Nat)
    (row : MessageCreated → String → α) (rows : List α) : Prop where
  one : ∀ ev, events ev → rows.countP (fun r => id r = ev.id) = 1
  present : ∀ ev, events ev → ∃ producer, row ev producer ∈ rows
  only : ∀ r ∈ rows, ∃ ev producer, events ev ∧ r = row ev producer

/-- How a store makes its rows of events: the key and what is `bare` of the producer are functions
of the event, and the key tells the events' identifiers apart. -/
structure Projects {α κ : Type} (key : α → κ) (id : α → Nat) (bare : α → α)
    (row : MessageCreated → String → α) : Prop where
  id_row : ∀ ev p, id (row ev p) = ev.id
  key_row : ∀ ev p p', key (row ev p) = key (row ev p')
  id_key : ∀ ev p ev' p', key (row ev p) = key (row ev' p') → ev.id = ev'.id
  bare_row : ∀ ev p p', bare (row ev p) = bare (row ev p')
  key_bare : ∀ a b, bare a = bare b → key a = key b

section Store

variable {α κ : Type} [DecidableEq κ] {key : α → κ} {id : α → Nat} {bare : α → α}
  {row : MessageCreated → String → α} {events events' : MessageCreated → Prop}
  {writes writes' : List α}

/-- The writes are rows of the events, at least one of each. -/
structure Writes (events : MessageCreated → Prop) (row : MessageCreated → String → α)
    (writes : List α) : Prop where
  made : ∀ x ∈ writes, ∃ ev producer, events ev ∧ x = row ev producer
  all : ∀ ev, events ev → ∃ producer, row ev producer ∈ writes

omit [DecidableEq κ] in
theorem Projects.agree (proj : Projects key id bare row) (identical : Identical events)
    (of : Writes events row writes) : Upsert.Agree key bare writes := by
  intro a ha b hb same
  obtain ⟨ev, p, known, rfl⟩ := of.made a ha
  obtain ⟨ev', p', known', rfl⟩ := of.made b hb
  obtain rfl := identical ev ev' known known' (proj.id_key ev p ev' p' same)
  exact proj.bare_row ev p p'

theorem Projects.shows (proj : Projects key id bare row) (identical : Identical events)
    (of : Writes events row writes) : Shows events id row (Upsert.table key writes) := by
  have goes : ∀ a ∈ writes, ∀ b ∈ writes, id a = id b ↔ key a = key b := by
    intro a ha b hb
    obtain ⟨ev, p, known, rfl⟩ := of.made a ha
    obtain ⟨ev', p', known', rfl⟩ := of.made b hb
    rw [proj.id_row, proj.id_row]
    constructor
    · intro same
      obtain rfl := identical ev ev' known known' same
      exact proj.key_row ev p p'
    · exact proj.id_key ev p ev' p'
  refine ⟨?_, ?_, fun r hr => of.made r (Upsert.mem_of_mem_table hr)⟩
  · intro ev known
    obtain ⟨p, written⟩ := of.all ev known
    rw [← proj.id_row ev p]
    exact Upsert.countP_column goes written
  · intro ev known
    obtain ⟨p, written⟩ := of.all ev known
    obtain ⟨x, hx, under⟩ := Upsert.exists_mem_table key written
    obtain ⟨ev', p', known', rfl⟩ := of.made x (Upsert.mem_of_mem_table hx)
    obtain rfl := identical ev' ev known' known (proj.id_key ev' p' ev p under)
    exact ⟨p', hx⟩

/-- The events alone decide what is bare of the producer. -/
theorem Projects.perm (proj : Projects key id bare row) (identical : Identical events)
    (identical' : Identical events') (of : Writes events row writes)
    (of' : Writes events' row writes') (same : ∀ ev, events ev ↔ events' ev) :
    ((Upsert.table key writes).map bare).Perm ((Upsert.table key writes').map bare) := by
  refine Upsert.table_perm proj.key_bare (proj.agree identical of) (proj.agree identical' of') ?_
  -- a row of either side is bare as the other side's row of the same event
  have half : ∀ {events events' : MessageCreated → Prop} {writes writes' : List α},
      Writes events row writes → Writes events' row writes' → (∀ ev, events ev → events' ev) →
      ∀ v, v ∈ writes.map bare → v ∈ writes'.map bare := by
    intro events events' writes writes' of of' sub v mem
    obtain ⟨x, hx, rfl⟩ := List.mem_map.mp mem
    obtain ⟨ev, p, known, rfl⟩ := of.made x hx
    obtain ⟨p', written⟩ := of'.all ev (sub ev known)
    exact List.mem_map.mpr ⟨_, written, proj.bare_row ev p' p⟩
  intro v
  exact ⟨half of of' (fun ev => (same ev).mp) v, half of' of (fun ev => (same ev).mpr) v⟩

end Store

/-- A row of `message_events` without its producer. -/
def bareFeed (r : FeedRow) : FeedRow := { r with producer := "" }

/-- A row of `events_by_id` without its producer. -/
def bareEvent (r : EventRow) : EventRow := { r with producer := "" }

/-- An entry of the index without its producer. -/
def bareEntry (e : String × Search.Document) : String × Search.Document :=
  (e.1, { e.2 with producer := "" })

theorem projects_feed : Projects FeedRow.key FeedRow.id bareFeed feedRow where
  id_row _ _ := rfl
  key_row _ _ _ := rfl
  id_key _ _ _ _ same := congrArg (fun k => k.2.2) same
  bare_row _ _ _ := rfl
  key_bare _ _ same := by
    injection same with sameDay sameTime sameId
    exact congrArg₂ Prod.mk sameDay (congrArg₂ Prod.mk sameTime sameId)

theorem projects_event : Projects EventRow.id EventRow.id bareEvent eventRow where
  id_row _ _ := rfl
  key_row _ _ _ := rfl
  id_key _ _ _ _ same := same
  bare_row _ _ _ := rfl
  key_bare _ _ same := (EventRow.mk.inj same).1

/-- The identifiers of the documents are told apart by their decimal digits. -/
theorem projects_document : Projects Prod.fst (fun e => e.2.id) bareEntry
    (fun ev producer => entry (document ev producer)) where
  id_row _ _ := rfl
  key_row _ _ _ := rfl
  id_key _ _ _ _ same := Go.formatInt_ten_injective same
  bare_row _ _ _ := rfl
  key_bare _ _ same := (Prod.mk.inj same).1

/-! ## The stores of the consumers -/

/-- The events of the runs so far. -/
def Handled (w : State) (ev : MessageCreated) : Prop := ∃ cfg p, ((cfg, ev), p) ∈ w.procs

/-- A batch with the event took effect. -/
def Saved (w : State) (ev : MessageCreated) : Prop := ∃ producer, .batch ev producer ∈ w.env.written

/-- A write of the event's document took effect. -/
def Indexed (w : State) (ev : MessageCreated) : Prop :=
  Handled w ev ∧ ∃ producer, .document (document ev producer) ∈ w.env.written

theorem handled_of_saved {w : State} (h : consumers.Reachable w) {ev : MessageCreated}
    (saved : Saved w ev) : Handled w ev := by
  obtain ⟨producer, written⟩ := saved
  obtain ⟨q, p, runs, carries⟩ := issued h _ ((held h).sent written)
  obtain rfl := carries.1
  exact ⟨q.1, p, runs⟩

/-- The documents carry events too. -/
theorem indexed_of_document {w : State} (h : consumers.Reachable w) {doc : Search.Document}
    (written : .document doc ∈ w.env.written) :
    ∃ ev producer, Indexed w ev ∧ doc = document ev producer := by
  obtain ⟨q, p, runs, carries⟩ := issued h _ ((held h).sent written)
  cases carries
  exact ⟨q.2, q.1.broker, ⟨⟨q.1, p, runs⟩, q.1.broker, written⟩, rfl⟩

/-- The rows of the batches. -/
theorem writes_batches (w : State) {α : Type} (row : MessageCreated → String → α) :
    Writes (Saved w) row ((batches w.env.written).map fun b => row b.1 b.2) where
  made x mem := by
    obtain ⟨⟨ev, producer⟩, hb, rfl⟩ := List.mem_map.mp mem
    exact ⟨ev, producer, ⟨producer, mem_batches.mp hb⟩, rfl⟩
  all ev saved := by
    obtain ⟨producer, written⟩ := saved
    exact ⟨producer, List.mem_map.mpr ⟨(ev, producer), mem_batches.mpr written, rfl⟩⟩

theorem writes_documents {w : State} (h : consumers.Reachable w) :
    Writes (Indexed w) (fun ev producer => entry (document ev producer))
      ((documents w.env.written).map entry) where
  made x mem := by
    obtain ⟨doc, hdoc, rfl⟩ := List.mem_map.mp mem
    obtain ⟨ev, producer, indexed, rfl⟩ := indexed_of_document h (mem_documents.mp hdoc)
    exact ⟨ev, producer, indexed, rfl⟩
  all ev indexed := by
    obtain ⟨_, producer, written⟩ := indexed
    exact ⟨producer, List.mem_map_of_mem (mem_documents.mpr written)⟩

/-! ## What `nil` means -/

/-- The event is in every store the run is configured with. -/
def Stored (q : Config × MessageCreated) (s : Stores) : Prop :=
  (q.1.events = true → ∃ producer, .batch q.2 producer ∈ s.written) ∧
    (q.1.index = true → ∃ producer, .document (document q.2 producer) ∈ s.written)

/-- What was written stays written. -/
def Grows (s t : Stores) : Prop := s.written ⊆ t.written

/-- The second half, where the first did its part. -/
theorem handleIndex_stored {i : Nat} {cfg : Config} {ev : MessageCreated} {s : Stores}
    (first : cfg.events = true → ∃ producer, .batch ev producer ∈ s.written) :
    (handleIndex cfg ev).Safe Grows (machine.answersIn (fun _ => True) (i, (cfg, ev)))
      (fun ok t => ok = true → Stored (cfg, ev) t) s := by
  rw [handleIndex]
  split
  · rintro s₁ grown r s₂ ⟨_, c, answers⟩ returned
    obtain ⟨step, _, written⟩ := respond_stepped answers
    refine ⟨fun configured => ?_, fun _ => ⟨_, written returned⟩⟩
    obtain ⟨producer, mem⟩ := first configured
    exact ⟨producer, step.written (grown mem)⟩
  · next off => exact fun _ => ⟨first, fun on => absurd on off⟩

theorem handle_stored (i : Nat) (cfg : Config) (ev : MessageCreated) (s : Stores) :
    (handle cfg ev).Safe Grows (machine.answersIn (fun _ => True) (i, (cfg, ev)))
      (fun ok t => ok = true → Stored (cfg, ev) t) s := by
  rw [handle]
  split
  · rintro s₁ _ r s₂ ⟨_, c, answers⟩
    cases r with
    | false => exact Bool.noConfusion
    | true => exact handleIndex_stored fun _ => ⟨_, (respond_stepped answers).2.2 rfl⟩
  · next off => exact handleIndex_stored fun on => absurd on off

/-- A run that returned `nil` has stored its event. -/
theorem stored {w : State} (h : consumers.Reachable w) {cfg : Config} {ev : MessageCreated}
    (returned : ((cfg, ev), .ret true) ∈ w.procs) : Stored (cfg, ev) w.env := by
  obtain ⟨i, runs⟩ := List.getElem?_of_mem returned
  refine Machine.safe (fun _ => True) Grows (fun q ok t => ok = true → Stored q t)
    (fun _ _ => trivial) (fun _ => List.Subset.refl _) (fun _ _ _ => List.Subset.trans)
    (fun _ _ _ _ step => (stepped_env step).written) ?_ ?_ h i (cfg, ev) (.ret true) runs rfl
  · intro q ok s t post grown returned
    obtain ⟨saved, indexed⟩ := post returned
    refine ⟨fun on => ?_, fun on => ?_⟩
    · obtain ⟨producer, mem⟩ := saved on
      exact ⟨producer, grown mem⟩
    · obtain ⟨producer, mem⟩ := indexed on
      exact ⟨producer, grown mem⟩
  · intro i q s t _ taken
    cases taken
    exact handle_stored i q.1 q.2 s

/-! ## Convergence -/

theorem Identical.of_sub {events events' : MessageCreated → Prop} (h : Identical events)
    (sub : ∀ ev, events' ev → events ev) : Identical events' :=
  fun ev ev' known known' => h ev ev' (sub ev known) (sub ev' known')

/-- **The projections converge.** In every reachable state each table of Cassandra holds one row for
each event that was saved and the index one document for each that was indexed, made of the event,
and nothing else; two runs in which the same events took effect leave the same but for the
producers; and a run that returned `nil` finds its event in every store it is configured with. -/
theorem projections_converge {w : State} (h : consumers.Reachable w)
    (identical : Identical (Handled w)) :
    Shows (Saved w) EventRow.id eventRow w.env.cassandra.eventsById ∧
    Shows (Saved w) FeedRow.id feedRow w.env.cassandra.messageEvents ∧
    Shows (Indexed w) (fun e => e.2.id) (fun ev producer => entry (document ev producer))
      w.env.messages ∧
    (∀ w', consumers.Reachable w' → Identical (Handled w') →
      ((∀ ev, Saved w ev ↔ Saved w' ev) →
        (w.env.cassandra.eventsById.map bareEvent).Perm
          (w'.env.cassandra.eventsById.map bareEvent) ∧
        (w.env.cassandra.messageEvents.map bareFeed).Perm
          (w'.env.cassandra.messageEvents.map bareFeed)) ∧
      ((∀ ev, Indexed w ev ↔ Indexed w' ev) →
        (w.env.messages.map bareEntry).Perm (w'.env.messages.map bareEntry))) ∧
    ∀ cfg ev, ((cfg, ev), .ret true) ∈ w.procs →
      (cfg.events = true → Saved w ev) ∧ (cfg.index = true → Indexed w ev) := by
  have saved : ∀ {w}, consumers.Reachable w → Identical (Handled w) → Identical (Saved w) :=
    fun h identical => identical.of_sub fun _ => handled_of_saved h
  have indexed : ∀ {w}, consumers.Reachable w → Identical (Handled w) → Identical (Indexed w) :=
    fun _ identical => identical.of_sub fun _ => And.left
  refine ⟨?_, ?_, ?_, ?_, ?_⟩
  · rw [(held h).eventsById]
    exact projects_event.shows (saved h identical) (writes_batches w eventRow)
  · rw [(held h).messageEvents]
    exact projects_feed.shows (saved h identical) (writes_batches w feedRow)
  · rw [(held h).messages]
    exact projects_document.shows (indexed h identical) (writes_documents h)
  · intro w' h' identical'
    refine ⟨fun same => ⟨?_, ?_⟩, fun same => ?_⟩
    · rw [(held h).eventsById, (held h').eventsById]
      exact projects_event.perm (saved h identical) (saved h' identical')
        (writes_batches w eventRow)
        (writes_batches w' eventRow) same
    · rw [(held h).messageEvents, (held h').messageEvents]
      exact projects_feed.perm (saved h identical) (saved h' identical') (writes_batches w feedRow)
        (writes_batches w' feedRow) same
    · rw [(held h).messages, (held h').messages]
      exact projects_document.perm (indexed h identical) (indexed h' identical')
        (writes_documents h)
        (writes_documents h') same
  · intro cfg ev returned
    obtain ⟨inTables, inIndex⟩ := stored h returned
    exact ⟨inTables, fun on => ⟨⟨cfg, _, returned⟩, inIndex on⟩⟩

/-- A consumer with both stores. -/
def bothStores (broker : String) : Config := ⟨broker, true, true, .inl rfl⟩

/-- The event of the message `a`, created at a moment. -/
def createdAt (t : Time) : MessageCreated := ⟨1, "a", "c", t, "otus-app"⟩

/-- Two consumers handle one event: the first loses the answer of the index, the second succeeds,
and the first one's batch takes effect once more. -/
theorem projections_converge_redelivered : ∃ w : State, consumers.Reachable w ∧
    ((bothStores "kafka", createdAt 7), .ret true) ∈ w.procs ∧ w.env.written.length = 5 ∧
    Saved w (createdAt 7) ∧ w.env.cassandra.eventsById.countP (fun r => r.id = 1) = 1 := by
  have replayed : ∃ w, System.replay machine.step ⟨empty, [], []⟩
      [.arrive (bothStores "rabbit", createdAt 7), .go 0 .done, .go 0 .lost,
        .arrive (bothStores "kafka", createdAt 7), .go 1 .done, .go 1 .done,
        .background 0] = some w ∧
      w.procs = [((bothStores "rabbit", createdAt 7), .ret false),
        ((bothStores "kafka", createdAt 7), .ret true)] ∧
      w.env.written.length = 5 := ⟨_, rfl, rfl, rfl⟩
  obtain ⟨w, run, runs, length⟩ := replayed
  have reached : consumers.Reachable w := ⟨_, ⟨rfl, rfl, rfl⟩, System.Runs.of_replay run⟩
  have only : ∀ ev, Handled w ev → ev = createdAt 7 := by
    rintro ev ⟨cfg, p, mem⟩
    rw [runs] at mem
    rcases List.mem_cons.mp mem with first | second
    · cases first
      rfl
    · cases List.mem_singleton.mp second
      rfl
  have converge := projections_converge reached
    fun ev ev' known known' _ => (only ev known).trans (only ev' known').symm
  have returned : ((bothStores "kafka", createdAt 7), .ret true) ∈ w.procs :=
    runs ▸ List.mem_cons_of_mem _ List.mem_cons_self
  have saved := (converge.2.2.2.2 _ _ returned).1 rfl
  exact ⟨w, reached, returned, length, saved, converge.1.one _ saved⟩

/-- What Cassandra keeps of a time is its whole milliseconds: an event created one microsecond after
a full second is saved, and its rows say the full second. -/
theorem created_at_cut : ∃ (w : State) (ev : MessageCreated), consumers.Reachable w ∧ Saved w ev ∧
    (∃ r ∈ w.env.cassandra.eventsById, r.id = ev.id ∧ r.createdAt.time ≠ ev.createdAt) ∧
    ∃ r ∈ w.env.cassandra.messageEvents, r.id = ev.id ∧ r.createdAt.time ≠ ev.createdAt := by
  have replayed : ∃ w, System.replay machine.step ⟨empty, [], []⟩
      [.arrive (bothStores "kafka", createdAt 1000001), .go 0 .done] = some w ∧
      w.env.written = [.batch (createdAt 1000001) "kafka"] ∧
      w.env.cassandra.eventsById = [⟨1, "a", "c", "kafka", 1000⟩] ∧
      w.env.cassandra.messageEvents = [⟨"1970-01-01", 1000, 1, "a", "c", "kafka"⟩] :=
    ⟨_, rfl, rfl, rfl, rfl⟩
  obtain ⟨w, run, written, rows, feed⟩ := replayed
  have reached : consumers.Reachable w := ⟨_, ⟨rfl, rfl, rfl⟩, System.Runs.of_replay run⟩
  refine ⟨w, createdAt 1000001, reached, ⟨"kafka", written ▸ List.mem_cons_self⟩, ?_, ?_⟩
  · rw [rows]
    exact ⟨_, List.mem_cons_self, rfl, by decide⟩
  · rw [feed]
    exact ⟨_, List.mem_cons_self, rfl, by decide⟩

end OtusApp.Projection
