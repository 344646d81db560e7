import OtusApp.Laws.Broker.Nats
import OtusApp.Laws.Broker.Rabbit
import OtusApp.Laws.Consumer.Offsets
import OtusApp.Laws.Outbox.Delivery
import OtusApp.Pipeline.System

/-!
# What is delivered reaches the stores

Each part has its own invariant: the outbox completes a job only after `Publish` returned `nil`, and
a broker with careful consumers holds a message until it is filed. Side by side they give the whole
way of a message, from its row in PostgreSQL to the rows and documents made of it. What is needed
besides is that the parts run as they do alone (`outbox_reachable`, `broker_reachable`), and that
the events that are published are those of the messages (`Relayed`).

No broker lets a message expire here. The queue of RabbitMQ and the stream of NATS are declared
without an age; the topic of Kafka is created with the broker's own, and is taken to be read before
that.
-/

namespace OtusApp.Pipeline

open Messaging Program Transition Storage

section

variable {codec : EventCodec} {ι : Type} [DecidableEq ι] {name : ι → String} {channel : ι → Channel}

/-! ## The parts -/

theorem outbox_reachable {s : State codec channel} (h : (system codec name channel).Reachable s) :
    (Outbox.replicas codec).Reachable s.outbox := by
  refine h.invariant (I := fun s => (Outbox.replicas codec).Reachable s.outbox) ?_ ?_
  · rintro s ⟨start, _⟩
    exact .of_init start
  · intro s l t _ ih step
    cases step with
    | outbox moves => exact ih.step moves
    | broker => exact ih

theorem broker_reachable {s : State codec channel} (h : (system codec name channel).Reachable s)
    (b : ι) :
    (channel b).system.Reachable (s.brokers b) := by
  refine h.invariant (I := fun s => (channel b).system.Reachable (s.brokers b)) ?_ ?_
  · rintro s ⟨_, start⟩
    exact .of_init (start b)
  · intro s l t _ ih step
    cases step with
    | outbox => exact ih
    | @broker b' l t moves =>
      show (channel b).system.Reachable (Function.update s.brokers b' t b)
      by_cases here : b = b'
      · subst here
        rw [Function.update_self]
        exact ih.step moves
      · rw [Function.update_of_ne here]
        exact ih

/-! ## One publication -/

theorem published_of_resume {s t : Outbox.Replicas codec} {i : Nat} {reply : Outbox.Reply}
    (h : s.resume i reply = some t) : t.published = s.published := by
  obtain ⟨_, _, _, _, rfl⟩ := Outbox.resume_some h
  rfl

theorem published_of_call {s t : Outbox.Replicas codec} {e : Event} {answer : Answer}
    (h : s.call e answer = some t) : t.published = s.published := by
  cases answer with
  | lost =>
    cases h
    rfl
  | ok | failed =>
    obtain ⟨db, _, rfl⟩ := Option.map_eq_some_iff.mp h
    rfl

/-- A publication is counted when `Publish` returned `nil` to the worker that is about it. -/
theorem published_of_next {s t : Outbox.Replicas codec} {mv : Outbox.Move} (h : s.next mv = some t)
    {target : String} {ev : MessageCreated} (mem : (target, ev) ∈ t.published) :
    (target, ev) ∈ s.published ∨ ∃ i source w, mv = .publish i true source ∧
    s.workers[i]? = some w ∧
      w.target = target ∧ Publishing w ev := by
  have same : t.published = s.published → (target, ev) ∈ s.published := fun same => same ▸ mem
  have called : ∀ {e answer i reply},
      (s.call e answer).bind (fun s' => s'.resume i reply) = some t →
        t.published = s.published := by
    intro e answer i reply h
    obtain ⟨s', call, resume⟩ := Option.bind_eq_some_iff.mp h
    exact (published_of_resume resume).trans (published_of_call call)
  cases mv with
  | storage e =>
    obtain ⟨_, h⟩ := Option.ite_none_left_eq_some.mp h
    obtain ⟨db, _, rfl⟩ := Option.map_eq_some_iff.mp h
    exact .inl mem
  | start | cancel | crash =>
    cases h
    exact .inl mem
  | look | stats | connect | wait => exact .inl (same (published_of_resume h))
  | claim i token locked answer source =>
    obtain ⟨w, _, h⟩ := Option.bind_eq_some_iff.mp h
    exact .inl (same (called h))
  | publish i ok source =>
    obtain ⟨w, entry, h⟩ := Option.bind_eq_some_iff.mp h
    split at h
    · next d stage =>
      rw [published_of_resume h] at mem
      cases ok with
      | false => exact .inl mem
      | true =>
        rcases List.mem_cons.mp mem with new | old
        · cases new
          exact .inr ⟨i, source, w, rfl, entry, rfl, d, stage, rfl⟩
        · exact .inl old
    · cases h
  | retry i answer | complete i answer =>
    obtain ⟨w, _, h⟩ := Option.bind_eq_some_iff.mp h
    split at h
    · exact .inl (same (called h))
    · cases h
  | land k =>
    obtain ⟨e, _, h⟩ := Option.bind_eq_some_iff.mp h
    obtain ⟨db, _, h⟩ := Option.bind_eq_some_iff.mp h
    cases h
    exact .inl mem

/-- The event of a message. -/
def EventOf (db : Database codec) (ev : MessageCreated) : Prop :=
  ∃ r ∈ db.tables.messages, (r.message true).createdEvent = ev

/-- What a worker is about to publish is the event of a message. -/
theorem eventOf_publishing {s : Outbox.Replicas codec} (h : (Outbox.replicas codec).Reachable s)
    {w : Outbox.Worker} (mem : w ∈ s.workers) {ev : MessageCreated} (publishing : Publishing w ev) :
    EventOf s.db ev := by
  obtain ⟨d, stage, rfl⟩ := publishing
  have held : w.stage.delivery = some d := by rw [stage]; rfl
  obtain ⟨_, o, row, _, decoded⟩ := (Outbox.honest h).working w mem d held
  have c := consistent (Outbox.replicas_simulates.reachable h)
  obtain ⟨r, message, _, _, _, described⟩ := c.described o row
  exact ⟨r, message, Option.some.inj (described.symm.trans decoded)⟩

/-! ## The whole -/

/-- What was published was accepted, and whose event is published is a message. -/
structure Relayed (name : ι → String) (s : State codec channel) : Prop where
  accepted : ∀ target ev, (target, ev) ∈ s.outbox.published → ∃ b, name b = target ∧
    (channel b).Accepted ev (s.brokers b)
  events : ∀ b ev, (channel b).Begun ev (s.brokers b) → EventOf s.outbox.db ev

theorem relayed {s : State codec channel} (h : (system codec name channel).Reachable s) :
    Relayed name s := by
  refine h.invariant (I := Relayed name) ?_ ?_
  · rintro s ⟨⟨_, _, _, none⟩, start⟩
    refine ⟨fun target ev mem => ?_, fun b ev begun =>
      absurd begun ((channel b).fresh ev _ (start b))⟩
    rw [none] at mem
    cases mem
  · intro s l t reach ih step
    cases step with
    | @outbox mv t moves acknowledged =>
      refine ⟨fun target ev mem => ?_, fun b ev begun => ?_⟩
      · rcases published_of_next moves mem with old | ⟨i, source, w, rfl, entry, rfl, publishing⟩
        · exact ih.accepted target ev old
        · exact acknowledged i source w ev rfl entry publishing
      · obtain ⟨r, message, is⟩ := ih.events b ev begun
        have reached := outbox_reachable reach
        have run := Outbox.db_runs reached (.single moves)
        exact ⟨r, (later (Outbox.replicas_simulates.reachable reached) run).messages r message, is⟩
    | @broker b l t moves called =>
      have kept : ∀ b' ev, (channel b').Accepted ev (s.brokers b') →
          (channel b').Accepted ev (Function.update s.brokers b t b') := by
        intro b' ev accepted
        by_cases here : b' = b
        · subst here
          rw [Function.update_self]
          exact (channel b').stays ev _ _ _ moves accepted
        · rw [Function.update_of_ne here]
          exact accepted
      refine ⟨fun target ev mem => ?_, fun b' ev begun => ?_⟩
      · obtain ⟨b', named, accepted⟩ := ih.accepted target ev mem
        exact ⟨b', named, kept b' ev accepted⟩
      · change (channel b').Begun ev (Function.update s.brokers b t b') at begun
        by_cases here : b' = b
        · subst here
          rw [Function.update_self] at begun
          rcases (channel b').begun ev _ _ _ moves begun with old | new
          · exact ih.events b' ev old
          · obtain ⟨w, mem, publishing⟩ := called ev new
            exact eventOf_publishing (outbox_reachable reach) mem publishing
        · rw [Function.update_of_ne here] at begun
          exact ih.events b' ev begun

/-- A job that is marked delivered is that of a message, and its event was accepted by its
broker. -/
theorem accepted_of_delivered {s : State codec channel}
    (h : (system codec name channel).Reachable s) {o : OutboxRow codec.Payload}
    (row : o ∈ s.outbox.db.tables.outbox) (delivered : o.deliveredAt ≠ none) :
    ∃ r ∈ s.outbox.db.tables.messages, r.id = o.messageId ∧
      ∃ b, name b = o.target ∧ (channel b).Accepted (r.message true).createdEvent
        (s.brokers b) := by
  have reached := outbox_reachable h
  obtain ⟨ev, decoded, published⟩ := (Outbox.honest reached).rows o row delivered
  obtain ⟨b, named, accepted⟩ := (relayed h).accepted _ _ published
  have c := consistent (Outbox.replicas_simulates.reachable reached)
  obtain ⟨r, message, id, _, _, described⟩ := c.described o row
  cases described.symm.trans decoded
  exact ⟨r, message, id, b, named, accepted⟩

/-- Events of messages are told apart by their identifiers. -/
theorem eventOf_identical {db : Database codec} (h : (database codec).Reachable db) :
    Projection.Identical (EventOf db) := by
  rintro ev ev' ⟨r, message, rfl⟩ ⟨r', message', rfl⟩ same
  have one : r = r' := Rows.eq_of_key (consistent h).distinct.ids (List.mem_append_left _ message)
    (List.mem_append_left _ message') same
  rw [one]

end

/-! ## The three brokers -/

variable {codec : EventCodec} {cfg : Settings}

/-- The state of the pipeline. -/
abbrev PipelineState (codec : EventCodec) (cfg : Settings) := State codec (channels codec cfg)

/-- The consumer group of Kafka. -/
def PipelineState.kafka (s : PipelineState codec cfg) : Consumer.Group codec := s.brokers .kafka

/-- RabbitMQ with its publications and consumers. -/
def PipelineState.rabbit (s : PipelineState codec cfg) : Broker.Rabbit.State codec cfg.rabbit :=
  s.brokers .rabbitmq

/-- NATS with its publications and consumers. -/
def PipelineState.nats (s : PipelineState codec cfg) : Broker.Nats.State codec cfg.nats :=
  s.brokers .nats

/-- The event is a record of the topic that the group has yet to confirm, or `handle` returned `nil`
for it. -/
def InKafka (s : PipelineState codec cfg) (ev : MessageCreated) : Prop :=
  ∃ p, ∃ r ∈ s.kafka.logs p, codec.unmarshal r.value = some ev ∧
    (s.kafka.committed p ≤ r.offset ∨ (p, r.offset, ev) ∈ s.kafka.handled)

/-- The event is a message that the queue holds, or it is filed. -/
def InRabbit (s : PipelineState codec cfg) (ev : MessageCreated) : Prop :=
  ∃ (k : Nat) (payload : codec.Payload), s.rabbit.env.broker.ledger.log[k]? = some payload ∧
  codec.unmarshal payload = some ev ∧
    (s.rabbit.env.broker.ledger.Held k ∨ ∃ c, cfg.rabbitConsumers c ∧
      Broker.Filed c ev s.rabbit.env.stores)

/-- The event is a message that is due to the durable consumer, or it is filed. -/
def InNats (s : PipelineState codec cfg) (ev : MessageCreated) : Prop :=
  ∃ (k : Nat) (message : String × codec.Payload), s.nats.env.broker.ledger.log[k]? = some message ∧
    codec.unmarshal message.2 = some ev ∧
    (s.nats.env.broker.ledger.Held k ∨ ∃ c, cfg.natsConsumers c ∧
      Broker.Filed c ev s.nats.env.stores)

theorem inKafka {s : PipelineState codec cfg} (h : (pipeline codec cfg).Reachable s)
    {ev : MessageCreated} (accepted : (channels codec cfg .kafka).Accepted ev (s.brokers .kafka)) :
    InKafka s ev := by
  obtain ⟨payload, p, encoded, r, mem, rfl⟩ := accepted
  have decoded := codec.unmarshal_marshal ev _ encoded
  refine ⟨p, r, mem, decoded, ?_⟩
  have reach : (Consumer.group codec).Reachable s.kafka := broker_reachable h .kafka
  by_cases due : s.kafka.committed p ≤ r.offset
  · exact .inl due
  · obtain ⟨ev', decoded', handled⟩ :=
      ((Consumer.confirmed reach).committed p).2 r mem (Nat.lt_of_not_le due)
    cases decoded.symm.trans decoded'
    exact .inr handled

theorem inRabbit {s : PipelineState codec cfg} (h : (pipeline codec cfg).Reachable s)
    {ev : MessageCreated}
    (accepted : (channels codec cfg .rabbitmq).Accepted ev (s.brokers .rabbitmq)) :
    InRabbit s ev := by
  obtain ⟨p, returned⟩ := accepted
  have reach : (Broker.Rabbit.deployment codec cfg.rabbit cfg.rabbitConsumers).Reachable s.rabbit :=
    broker_reachable h .rabbitmq
  obtain ⟨k, ⟨payload, encoded, logged⟩, settled⟩ :=
    Broker.Rabbit.published_held_or_filed reach returned
  exact ⟨k, payload, logged, codec.unmarshal_marshal ev _ encoded, settled⟩

theorem inNats {s : PipelineState codec cfg} (h : (pipeline codec cfg).Reachable s)
    {ev : MessageCreated} (accepted : (channels codec cfg .nats).Accepted ev (s.brokers .nats)) :
    InNats s ev := by
  obtain ⟨p, returned⟩ := accepted
  have reach : (Broker.Nats.deployment codec cfg.nats cfg.natsConsumers).Reachable s.nats :=
    broker_reachable h .nats
  have identical : Projection.Identical (Broker.Nats.Published s.nats) :=
    (eventOf_identical (Outbox.replicas_simulates.reachable (outbox_reachable h))).of_sub
      fun ev begun => (relayed h).events .nats ev begun
  obtain ⟨k, ⟨payload, encoded, logged⟩, settled⟩ :=
    Broker.Nats.published_held_or_filed reach identical returned
  exact ⟨k, _, logged, codec.unmarshal_marshal ev _ encoded, settled⟩

/-- **From the outbox to the stores.** Over every interleaving of the application, the workers, the
brokers and the consumers, with any of them failing at any call: a job of the outbox that is marked
delivered is that of a message, and the event of this message is with the broker the job is for,
which still has to hand it out, or it was handled and is filed in the stores of a consumer of that
broker. For Kafka this rests on what `ofGroup` assumes: a `Publish` that returned `nil` has its
record in the topic, and no record expires there before it is handled. -/
theorem delivered_reaches_stores {s : PipelineState codec cfg}
    (h : (pipeline codec cfg).Reachable s) :
    ∀ o ∈ s.outbox.db.tables.outbox, o.deliveredAt ≠ none →
      ∃ r ∈ s.outbox.db.tables.messages, r.id = o.messageId ∧
        ((o.target = "kafka" ∧ InKafka s (r.message true).createdEvent) ∨
          (o.target = "rabbitmq" ∧ InRabbit s (r.message true).createdEvent) ∨
          (o.target = "nats" ∧ InNats s (r.message true).createdEvent)) := by
  intro o row delivered
  obtain ⟨r, message, id, b, named, accepted⟩ := accepted_of_delivered h row delivered
  refine ⟨r, message, id, ?_⟩
  cases b with
  | kafka => exact .inl ⟨named.symm, inKafka h accepted⟩
  | rabbitmq => exact .inr (.inl ⟨named.symm, inRabbit h accepted⟩)
  | nats => exact .inr (.inr ⟨named.symm, inNats h accepted⟩)

/-! ## A run -/

/-- Moves of the outbox in which no publication succeeds. -/
theorem outbox_runs {s : PipelineState codec cfg} {mvs : List Outbox.Move}
    {t : Outbox.Replicas codec} (replay : System.replay Outbox.Replicas.next s.outbox mvs = some t)
    (quiet : ∀ mv ∈ mvs, ∀ i source, mv ≠ .publish i true source) :
    (pipeline codec cfg).Runs s { s with outbox := t } := by
  induction mvs generalizing s with
  | nil =>
    cases replay
    exact .refl s
  | cons mv mvs ih =>
    obtain ⟨u, moves, rest⟩ := Option.bind_eq_some_iff.mp replay
    have first : (pipeline codec cfg).Runs s { s with outbox := u } :=
      System.Runs.single (Step.outbox moves fun i source _ _ is =>
        absurd is (quiet mv List.mem_cons_self i source))
    exact first.trans (ih rest fun mv mem => quiet mv (List.mem_cons_of_mem _ mem))

/-- NATS makes a step, which a worker has called for if it is a publication. -/
theorem nats_reachable {s : PipelineState codec cfg} (reach : (pipeline codec cfg).Reachable s)
    {l : Move (Broker.Task (Broker.Nats.nats codec cfg.nats)) (Broker.Choice Broker.Nats.Choice)
      (Broker.Quiet Broker.Nats.Background)} {w : Broker.Nats.State codec cfg.nats}
    (moves : (Broker.Nats.deployment codec cfg.nats cfg.natsConsumers).step s.nats l w)
    (called : ∀ ev, arriving l = some ev → ∃ w ∈ s.outbox.workers, Publishing w ev) :
    (pipeline codec cfg).Reachable { s with brokers := Function.update s.brokers .nats w } :=
  reach.step (Step.broker moves called)

/-- One node of each broker, and any consumers. -/
def oneOfEach : Settings :=
  ⟨Broker.Rabbit.oneNode, Broker.Nats.oneServer, fun _ => True, fun _ => True⟩

/-- Nothing has happened yet. -/
def quietStart : PipelineState plainCodec oneOfEach where
  outbox := Outbox.noReplicas
  brokers
    | .kafka => Consumer.newGroup
    | .rabbitmq =>
      (⟨⟨.empty, Projection.empty⟩, [], []⟩ : Broker.Rabbit.State plainCodec Broker.Rabbit.oneNode)
    | .nats =>
      (⟨⟨.empty, Projection.empty⟩, [], []⟩ : Broker.Nats.State plainCodec Broker.Nats.oneServer)

theorem quietStart_init : (pipeline plainCodec oneOfEach).init quietStart := by
  refine ⟨⟨initial_empty, rfl, rfl, rfl⟩, fun b => ?_⟩
  cases b with
  | kafka => exact ⟨fun _ => List.Pairwise.nil, fun _ => rfl, rfl, rfl, rfl⟩
  | rabbitmq => exact ⟨⟨rfl, rfl⟩, rfl, rfl⟩
  | nats => exact ⟨⟨rfl, rfl⟩, rfl, rfl⟩

/-- A message is created for `nats`, claimed by a worker, published and completed; no consumer
runs. -/
theorem delivered_reaches_stores_nats : ∃ s, (pipeline plainCodec oneOfEach).Reachable s ∧
    ∃ o ∈ s.outbox.db.tables.outbox, o.deliveredAt ≠ none ∧ o.target = "nats" ∧
    ∃ ev, InNats s ev := by
  have outbox : ∃ t₁ w d t₂ t₃ o, System.replay Outbox.Replicas.next Outbox.noReplicas
        (oneJob.map .storage ++ [.start "nats", .look 0 1, .stats 0 true 1, .claim 0 "t1" [] .ok 0,
          .connect 0 (some 7) true 0]) = some t₁ ∧
      t₁.workers = [w] ∧ w.target = "nats" ∧ w.stage = .publishing d ∧
        t₁.next (.publish 0 true 0) = some t₂ ∧
      t₂.next (.complete 0 .ok) = some t₃ ∧ o ∈ t₃.db.tables.outbox ∧ o.deliveredAt ≠ none ∧
        o.target = "nats" :=
    ⟨_, _, _, _, _, _, rfl, rfl, rfl, rfl, rfl, rfl, List.mem_cons_self, nofun, rfl⟩
  obtain ⟨t₁, w, d, t₂, t₃, o, claimed, workers, target, stage, published, completed, row,
    delivered, named⟩ := outbox
  have stream : ∃ w₁ w₂,
    ((Broker.Nats.service plainCodec.Payload).machine
      (Broker.Nats.nats plainCodec Broker.Nats.oneServer)).step
        ⟨⟨.empty, Projection.empty⟩, [], []⟩ (.arrive (.publication (0 : Nat) d.event)) = some w₁ ∧
      ((Broker.Nats.service plainCodec.Payload).machine
        (Broker.Nats.nats plainCodec Broker.Nats.oneServer)).step
        w₁ (.go 0 (.client (.published true true))) = some w₂ ∧
      (.publication (0 : Nat) d.event, .ret true) ∈ w₂.procs := ⟨_, _, rfl, rfl, List.mem_cons_self⟩
  obtain ⟨w₁, w₂, arrived, stored, returned⟩ := stream
  have quiet : ∀ mv ∈ oneJob.map Outbox.Move.storage ++ [.start "nats", .look 0 1, .stats 0 true 1,
      .claim 0 "t1" [] .ok 0, .connect 0 (some 7) true 0], ∀ i source,
        mv ≠ .publish i true source := by
    rintro _ mem i source rfl
    simp [oneJob] at mem
  have publishing : Publishing w d.event := ⟨d, stage, rfl⟩
  have r₁ : (pipeline plainCodec oneOfEach).Reachable { quietStart with outbox := t₁ } :=
    System.Reachable.runs (.of_init quietStart_init) (outbox_runs claimed quiet)
  have r₂ := nats_reachable r₁ ⟨fun _ _ _ => trivial, arrived⟩ (by
    rintro _ ⟨⟩
    exact ⟨w, workers ▸ List.mem_cons_self, publishing⟩)
  have r₃ := nats_reachable r₂ ⟨fun _ _ _ => trivial, stored⟩ (by
    rintro _ ⟨⟩)
  have r₄ := r₃.step (Step.outbox published (by
    rintro i source w' ev ⟨⟩ entry ⟨d', stage', rfl⟩
    have same : t₁.workers[0]? = some w' := entry
    rw [workers] at same
    cases same
    cases stage.symm.trans stage'
    exact ⟨.nats, target.symm, (0 : Nat), returned⟩))
  have r₅ := r₄.step (Step.outbox completed (by
    rintro i source w' ev ⟨⟩))
  obtain ⟨r, _, _, ⟨other, _⟩ | ⟨other, _⟩ | ⟨_, there⟩⟩ :=
    delivered_reaches_stores r₅ o row delivered
  · exact absurd (named.symm.trans other) (by decide)
  · exact absurd (named.symm.trans other) (by decide)
  · exact ⟨_, r₅, o, row, delivered, named, _, there⟩

end OtusApp.Pipeline
