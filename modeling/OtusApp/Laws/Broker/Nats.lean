import OtusApp.Broker.Nats
import OtusApp.Go.Strconv
import OtusApp.Laws.Broker.Settled

/-!
# NATS JetStream delivers at least once

The stream confirms a publication when it has a message with the publication's identifier, its own
or another's. So what a confirmed publication can rely on is a message with its event's identifier
(`Logged`), and that this is the event itself takes that events are told apart by their identifiers.
-/

namespace OtusApp.Broker.Nats

open Messaging Go Program Transition
open Projection (Config)

/-! ## What a call does to the stream -/

section

variable {P : Type} {s t : Stream P} {e : Call P}

/-- What the answer to a call can do to the messages of a stream. -/
inductive Responds (s : Stream P) (e : Call P) : Stream P → Prop
  | aside {t : Stream P} (ledger : t.ledger = s.ledger) (ids : t.ids = s.ids) : Responds s e t
  | store {nc : Nat} {subject msgId : String} {payload : P}
      (publishes : e = .publish nc subject msgId payload) :
      Responds s e (s.store msgId payload)
  | settle {k : Nat} (acks : e = .doubleAck k) : Responds s e (s.settle k)
  | send {k : Nat} (acks : e = .doubleAck k) : Responds s e { s with ledger := s.ledger.send () k }

theorem respond_responds {c : Choice} {r : e.Result} (h : s.respond e c = some (r, t)) :
    Responds s e t := by
  unfold Stream.respond at h
  split at h
  case h_1 ok | h_6 ok =>
    cases ok
    · cases h
      exact .aside rfl rfl
    · cases h
      exact .aside rfl rfl
  case h_5 stored ok =>
    obtain ⟨_, same⟩ := Option.ite_none_left_eq_some.mp h
    cases same
    split
    · exact .store rfl
    · exact .aside rfl rfl
  case h_7 =>
    obtain ⟨_, got⟩ := Option.ite_none_right_eq_some.mp h
    obtain ⟨message, _, same⟩ := Option.map_eq_some_iff.mp got
    cases same
    exact .aside rfl rfl
  case h_11 ok now =>
    cases now with
    | true =>
      cases h
      exact .settle rfl
    | false =>
      obtain ⟨_, same⟩ := Option.ite_none_left_eq_some.mp h
      cases same
      exact .send rfl
  case h_13 => cases h
  all_goals
    cases h
    exact .aside rfl rfl

/-- What a move can do. -/
inductive Drifts (s : Stream P) : Stream P → Prop
  | aside {t : Stream P} (ledger : t.ledger = s.ledger) (ids : t.ids ⊆ s.ids) : Drifts s t
  | land {k : Nat} (late : ((), k) ∈ s.ledger.late) : Drifts s (s.settle k)

theorem background_drifts {b : Background} (h : s.background b = some t) : Drifts s t := by
  cases b with
  | forget id =>
    cases h
    exact .aside rfl List.filter_sublist.subset
  | deliver iter k =>
    obtain ⟨_, same⟩ := Option.ite_none_right_eq_some.mp h
    cases same
    exact .aside rfl (List.Subset.refl _)
  | expire k =>
    cases h
    exact .aside rfl (List.Subset.refl _)
  | land k =>
    obtain ⟨late, same⟩ := Option.ite_none_right_eq_some.mp h
    cases same
    exact .land late

/-- A message is stored, or there is one with its identifier. -/
theorem store_cases (s : Stream P) (msgId : String) (payload : P) :
    (∃ k, s.ids.lookup msgId = some k ∧ s.store msgId payload = s) ∨
      s.store msgId payload =
        { s with
          ledger := s.ledger.put (msgId, payload)
          ids := (msgId, s.ledger.log.length) :: s.ids } := by
  rw [Stream.store]
  cases s.ids.lookup msgId with
  | some k => exact .inl ⟨k, rfl, rfl⟩
  | none => exact .inr rfl

end

/-! ## The ledger -/

/-- The message a call acknowledges. -/
def acks {P : Type} : Call P → Option Nat
  | .doubleAck k => some k
  | _ => none

/-- The message an answer hands out. -/
def gives {P : Type} : (e : Call P) → e.Result → Option (Nat × P)
  | .next _, .message k data => some (k, data)
  | _, _ => none

/-- What a call does to the messages and the acknowledgements. -/
theorem Responds.moves {P : Type} {s t : Stream P} {e : Call P} (h : Responds s e t) :
    Acks.Moves (fun k => acks e = some k) s.ledger t.ledger := by
  cases h with
  | aside ledger =>
    rw [ledger]
    exact .stay
  | @store nc subject msgId payload =>
    rcases store_cases s msgId payload with ⟨k, _, same⟩ | stored
    · rw [same]
      exact .stay
    · rw [stored]
      exact .put _
  | settle is =>
    subst is
    exact .ack rfl
  | send is =>
    subst is
    exact .send _ rfl

theorem Drifts.moves {P : Type} {s t : Stream P} (h : Drifts s t) :
    Acks.Moves (fun _ => False) s.ledger t.ledger := by
  cases h with
  | aside ledger =>
    rw [ledger]
    exact .stay
  | land late => exact .land late

/-- The ledger of the stream. -/
def view (codec : EventCodec) : View codec (service codec.Payload) Unit where
  ledger s := s.ledger.map Prod.snd
  acks := acks
  gives := gives
  call s e c r t h := (respond_responds h).moves.map Prod.snd
  given s e c r t h k p got := by
    cases e with
    | next iter =>
      cases c with
      | received k' =>
        obtain ⟨_, found⟩ := Option.ite_none_right_eq_some.mp h
        obtain ⟨message, entry, same⟩ := Option.map_eq_some_iff.mp found
        cases same
        cases got
        show (s.ledger.log.map Prod.snd)[k]? = _
        rw [List.getElem?_map, entry]
        rfl
      | error closed =>
        cases h
        cases got
      | _ => cases h
    | _ => cases got
  move s b t h := (background_drifts h).moves.map Prod.snd

/-! ## The client is careful -/

variable {codec : EventCodec}

/-- A call that sets a connection up or takes it down. -/
def Setup {P : Type} : Broker.Call (Call P) → Prop
  | .client (.publish ..) => False
  | .client (.doubleAck _) => False
  | .write _ => False
  | _ => True

private theorem setup_call {P α : Type} {e : Call P} {k : e.Result → Code P α}
    (is : Setup (.client e)) (rest : ∀ r, (k r).All Setup) : (call e >>= k).All Setup :=
  ⟨is, rest⟩

theorem natsConnect_setup {P : Type} (cfg : Settings) : (natsConnect cfg : Code P _).All Setup := by
  rw [natsConnect]
  split
  · trivial
  · refine setup_call trivial fun (nc : Option Nat) => ?_
    cases nc with
    | none => trivial
    | some nc =>
      refine setup_call trivial fun (js : Bool) => ?_
      cases js with
      | false => exact setup_call trivial fun _ => trivial
      | true =>
        refine setup_call trivial fun (stream : Bool) => ?_
        cases stream with
        | false => exact setup_call trivial fun _ => trivial
        | true => trivial

theorem newNATSConsumer_setup {P : Type} (cfg : Settings) :
    (newNATSConsumer cfg : Code P _).All Setup := by
  refine Prog.all_bind (natsConnect_setup cfg) ?_
  rintro ⟨nc, ok⟩
  cases nc with
  | none => trivial
  | some nc =>
    refine setup_call trivial fun (made : Bool) => ?_
    cases made with
    | false => exact setup_call trivial fun _ => trivial
    | true => trivial

theorem Setup.silent (e : Broker.Call (Call codec.Payload)) (h : Setup e) :
    Silent (view codec) e := by
  cases e with
  | client e =>
    cases e with
    | doubleAck => exact h.elim
    | _ => rfl
  | write => exact h.elim
  | err | sleep | draw | wait => trivial

theorem publish_silent (cfg : Settings) (nc : Nat) (ev : MessageCreated) :
    (publish codec cfg nc ev).All (Silent (view codec)) := by
  rw [publish]
  split
  · trivial
  · exact silent_client rfl fun _ => trivial

variable {c : Config} {handle : Handle (Call codec.Payload) Call.Result}

/-- A message is acknowledged when it was the one received, decoded and handled. -/
theorem iterate_consumes (h : Handles (view codec) c handle) (iter turns attempt : Nat) :
    Consumes (view codec) c (iterate codec handle iter turns attempt) := by
  induction turns generalizing attempt with
  | zero => exact .ret _
  | succ turns ih =>
    refine .running fun on => ?_
    cases on with
    | false => exact .ret _
    | true =>
      intro hand done
      refine Goes.client (e := Call.next iter) nofun fun (msg : Next codec.Payload) => ?_
      cases msg with
      | error closed =>
        refine Consumes.running (fun on => ?_) _ _
        cases on <;> cases closed
        · exact .ret _
        · exact .ret _
        · exact .sleep fun _ => ih attempt
        · exact .ret _
      | message k data =>
        dsimp only
        cases decoded : codec.unmarshal data with
        | none => exact Consumes.ret _ _ _
        | some ev =>
          refine h.bind (fun attempt => .client rfl fun _ => .ret _) fun attempt done finished => ?_
          refine Goes.client (e := Call.doubleAck k) ?_ fun (acked : Bool) => ?_
          · rintro _ ⟨⟩
            exact ⟨data, ev, rfl, decoded, finished⟩
          · cases acked with
            | false => exact Consumes.ret _ _ _
            | true => exact ih attempt _ _

theorem consume_consumes (h : Handles (view codec) c handle) (turns nc attempt : Nat) :
    Consumes (view codec) c (consume codec turns handle nc attempt) := by
  refine .client rfl fun (iter : Option Nat) => ?_
  cases iter with
  | none => exact .ret _
  | some iter =>
    refine (iterate_consumes h iter turns attempt).bind fun left => ?_
    cases left with
    | none => exact .ret _
    | some attempt => exact .client rfl fun _ => .ret _

theorem nats_careful (cfg : Settings) : Careful (view codec) (nats codec cfg) where
  publish nc ev := publishing_of_silent (publish_silent cfg nc ev)
  newConsumer _ := consumes_of_silent ((newNATSConsumer_setup cfg).mono Setup.silent)
  consume _ _ h turns nc attempt := consume_consumes h turns nc attempt
  close _ _ := consumes_of_silent ⟨rfl, fun _ => trivial⟩

/-! ## A confirmed publication is in the stream -/

section

variable {P : Type}

/-- An identifier that is remembered is that of its message. -/
def Named (s : Stream P) : Prop :=
  ∀ id k, (id, k) ∈ s.ids → ∃ payload, s.ledger.log[k]? = some (id, payload)

/-- Messages keep their numbers. -/
def Kept (s t : Stream P) : Prop :=
  ∀ (k : Nat) message, s.ledger.log[k]? = some message → t.ledger.log[k]? = some message

theorem Named.kept {s t : Stream P} (h : Named s) (kept : Kept s t) (ids : t.ids ⊆ s.ids) :
    Named t := by
  intro id k mem
  obtain ⟨payload, found⟩ := h id k (ids mem)
  exact ⟨payload, kept k _ found⟩

theorem Responds.named {s t : Stream P} {e : Call P} (h : Responds s e t) (before : Named s) :
    Named t := by
  have kept : Kept s t := fun k message found => h.moves.stays found
  cases h with
  | aside _ ids => exact before.kept kept (ids ▸ List.Subset.refl _)
  | @store nc subject msgId payload =>
    rcases store_cases s msgId payload with ⟨k, _, same⟩ | stored
    · rw [same]
      exact before
    · rw [stored] at kept ⊢
      intro id k mem
      rcases List.mem_cons.mp mem with new | old
      · cases new
        exact ⟨payload, List.getElem?_concat_length⟩
      · obtain ⟨payload', found⟩ := before id k old
        exact ⟨payload', kept k _ found⟩
  | settle | send => exact before.kept kept (List.Subset.refl _)

theorem Drifts.named {s t : Stream P} (h : Drifts s t) (before : Named s) : Named t := by
  have kept : Kept s t := fun k message found => h.moves.stays found
  cases h with
  | aside _ ids => exact before.kept kept ids
  | land => exact before.kept kept (List.Subset.refl _)

/-- After a publication that was stored there is a message with its identifier. -/
theorem named_store {s : Stream P} (h : Named s) (msgId : String) (payload : P) :
    ∃ (k : Nat) (payload' : P), (s.store msgId payload).ledger.log[k]? = some
      (msgId, payload') := by
  rcases store_cases s msgId payload with ⟨k, found, same⟩ | stored
  · rw [same]
    obtain ⟨before, after, split, _⟩ := List.lookup_eq_some_iff.mp found
    have mem : (msgId, k) ∈ s.ids := split ▸ List.mem_append_right _ List.mem_cons_self
    obtain ⟨payload', logged⟩ := h msgId k mem
    exact ⟨k, payload', logged⟩
  · rw [stored]
    exact ⟨s.ledger.log.length, payload, List.getElem?_concat_length⟩

end

/-- There is a message with the event's identifier. -/
def Logged (ev : MessageCreated) (s : Stream codec.Payload) : Prop :=
  ∃ (k : Nat) (payload : codec.Payload), s.ledger.log[k]? = some (formatInt ev.id 10, payload)

theorem publish_logged (cfg : Settings) (nc : Nat) (ev : MessageCreated)
    (w : World (Stream codec.Payload)) :
    Safely (service codec.Payload) Named Kept (fun r t => r.1 = true → Logged ev t.broker)
      (publish codec cfg nc ev) w := by
  rw [publish]
  split
  · exact Bool.noConfusion
  · next payload _ =>
    refine .client fun w₁ _ holds c (ok : Bool) s answers returned => ?_
    obtain rfl : ok = true := returned
    cases c with
    | published stored ok =>
      obtain ⟨answered, same⟩ := Option.ite_none_left_eq_some.mp answers
      cases same
      cases stored with
      | true => exact named_store holds _ payload
      | false => exact absurd rfl answered
    | _ => cases answers

theorem nats_confirms (codec : EventCodec) (cfg : Settings) :
    Confirms (service codec.Payload) (nats codec cfg) Named Kept Logged where
  refl _ _ _ found := found
  trans _ _ _ first second k message found := second k message (first k message found)
  call s e c r t holds answers :=
    ⟨(respond_responds answers).named holds, fun k message found =>
      (respond_responds answers).moves.stays found⟩
  move s b t holds moved :=
    ⟨(background_drifts moved).named holds, fun k message found =>
      (background_drifts moved).moves.stays found⟩
  stable ev s t h kept := by
    obtain ⟨k, payload, logged⟩ := h
    exact ⟨k, payload, kept k _ logged⟩
  publish := publish_logged cfg

/-! ## Whose messages they are -/

/-- A publication names its event, and nothing else publishes. -/
def Names {cfg : Settings} (q : Task (nats codec cfg)) (e : Broker.Call (Call codec.Payload)) :
    Prop :=
  ∀ nc subject msgId payload, e = .client (.publish nc subject msgId payload) →
    ∃ p ev, q = .publication p ev ∧ msgId = formatInt ev.id 10 ∧ codec.marshal ev = some payload

theorem Setup.names {cfg : Settings} (q : Task (nats codec cfg))
    (e : Broker.Call (Call codec.Payload)) (h : Setup e) :
    Names q e := by
  rintro nc subject msgId payload rfl
  exact h.elim

private theorem names_call {cfg : Settings} {q : Task (nats codec cfg)} {α : Type}
    {e : Call codec.Payload} {k : e.Result → Code codec.Payload α} (is : Names q (.client e))
    (rest : ∀ r, (k r).All (Names q)) :
    (call e >>= k).All (Names q) :=
  ⟨is, rest⟩

private theorem names_running {cfg : Settings} {q : Task (nats codec cfg)} {α : Type}
    {k : Bool → Code codec.Payload α} (rest : ∀ r, (k r).All (Names q)) :
    (running >>= k).All (Names q) :=
  ⟨nofun, rest⟩

theorem iterate_names {cfg : Settings} (q : Task (nats codec cfg))
    (handled : ∀ ev attempt, (handle ev attempt).All (Names q)) (iter turns attempt : Nat) :
    (iterate codec handle iter turns attempt).All (Names q) := by
  induction turns generalizing attempt with
  | zero => trivial
  | succ turns ih =>
    refine names_running fun on => ?_
    cases on with
    | false => trivial
    | true =>
      refine names_call nofun fun (msg : Next codec.Payload) => ?_
      cases msg with
      | error closed =>
        refine names_running fun on => ?_
        cases on <;> cases closed
        · trivial
        · trivial
        · exact ⟨nofun, fun _ => ih attempt⟩
        · trivial
      | message k data =>
        dsimp only
        split
        · trivial
        · next ev _ =>
          refine Prog.all_bind (handled ev attempt) ?_
          rintro ⟨ok, attempt⟩
          cases ok with
          | false => exact names_call nofun fun _ => trivial
          | true =>
            refine names_call nofun fun (acked : Bool) => ?_
            cases acked with
            | false => trivial
            | true => exact ih attempt

theorem publish_names {cfg : Settings} (nc : Nat) (ev : MessageCreated) :
    (publish codec cfg nc ev).All (Names (.publication nc ev : Task (nats codec cfg))) := by
  rw [publish]
  split
  · trivial
  · next payload encoded =>
    refine names_call ?_ fun _ => trivial
    rintro _ _ _ _ ⟨⟩
    exact ⟨nc, ev, rfl, rfl, encoded⟩

theorem consume_names {cfg : Settings} (q : Task (nats codec cfg))
    (handled : ∀ ev attempt, (handle ev attempt).All (Names q)) (turns nc attempt : Nat) :
    (consume codec turns handle nc attempt).All (Names q) := by
  refine names_call nofun fun (iter : Option Nat) => ?_
  cases iter with
  | none => trivial
  | some iter =>
    refine Prog.all_bind (iterate_names q handled iter turns attempt) fun left => ?_
    cases left with
    | none => trivial
    | some attempt => exact names_call nofun fun _ => trivial

theorem task_names {cfg : Settings} (q : Task (nats codec cfg)) : q.code.All (Names q) := by
  cases q with
  | publication nc ev => exact Prog.all_bind (publish_names nc ev) fun _ => trivial
  | consumer c turns =>
    have made :=
      (newNATSConsumer_setup cfg).mono (Setup.names (.consumer c turns : Task (nats codec cfg)))
    have closed : ∀ nc, ((nats codec cfg).close nc).All
      (Names (.consumer c turns : Task (nats codec cfg))) :=
      fun nc => ⟨nofun, fun _ => trivial⟩
    exact supervise_all ⟨nofun, nofun, fun _ => nofun⟩ made
      (fun turns nc attempt => consume_names _ (counting_all fun _ => nofun) turns nc attempt)
        closed turns 0

/-- Publishers and consumers over a stream that is empty at first. -/
def deployment (codec : EventCodec) (cfg : Settings) (among : Config → Prop) :=
  (service codec.Payload).deployment (nats codec cfg) (fun s => s = .empty) among

/-- The state of a deployment. -/
abbrev State (codec : EventCodec) (cfg : Settings) :=
  Pool (Task (nats codec cfg)) (Broker.Call (Call codec.Payload))
    (Broker.Call.Result Call.Result) Bool
    (World (Stream codec.Payload))

/-- The event has been published, or its publication is under way. -/
def Published {cfg : Settings} (w : State codec cfg) (ev : MessageCreated) : Prop :=
  ∃ p rest, (.publication p ev, rest) ∈ w.procs

/-- The message is the event's. -/
def Of (codec : EventCodec) (ev : MessageCreated) (message : String × codec.Payload) : Prop :=
  message.1 = formatInt ev.id 10 ∧ codec.marshal ev = some message.2

/-- What one call can add to the log. -/
theorem Responds.logged {P : Type} {s t : Stream P} {e : Call P} (h : Responds s e t)
    {message : String × P} (mem : message ∈ t.ledger.log) :
    message ∈ s.ledger.log ∨ ∃ nc subject, e = .publish nc subject message.1 message.2 := by
  cases h with
  | aside ledger =>
    rw [ledger] at mem
    exact .inl mem
  | @store nc subject msgId payload is =>
    rcases store_cases s msgId payload with ⟨k, _, same⟩ | stored
    · rw [same] at mem
      exact .inl mem
    · rw [stored] at mem
      rcases List.mem_append.mp mem with old | new
      · exact .inl old
      · cases List.mem_singleton.mp new
        exact .inr ⟨nc, subject, is⟩
  | settle | send => exact .inl mem

theorem Drifts.logged {P : Type} {s t : Stream P} (h : Drifts s t) :
    t.ledger.log = s.ledger.log := by
  cases h with
  | aside ledger => rw [ledger]
  | land => rfl

/-- Every message of the stream is that of some publication. -/
theorem issued {cfg : Settings} {among : Config → Prop} {w : State codec cfg}
    (reach : (deployment codec cfg among).Reachable w) :
    ∀ message ∈ w.env.broker.ledger.log, ∃ ev, Published w ev ∧ Of codec ev message := by
  refine reach.of_restrict.invariant
    (I := fun w => ∀ message ∈ w.env.broker.ledger.log, ∃ ev, Published w ev ∧
      Of codec ev message) ?_ ?_
  · rintro w ⟨⟨start, _⟩, _⟩ message mem
    rw [start] at mem
    cases mem
  · intro w mv w' reached ih step message mem
    -- a publication keeps its place, whatever is left of it
    have kept : (∃ ev, Published w ev ∧ Of codec ev message) → ∃ ev, Published w' ev ∧
        Of codec ev message := by
      rintro ⟨ev, ⟨p, rest, runs⟩, is⟩
      obtain ⟨i, entry⟩ := List.getElem?_of_mem runs
      obtain ⟨rest', entry'⟩ := Machine.request_kept step entry
      exact ⟨ev, ⟨p, rest', List.mem_of_getElem? entry'⟩, is⟩
    refine kept ?_
    cases Machine.stepped step with
    | arrive taken =>
      cases taken
      exact ih message mem
    | @go i c q e k r env runs answers =>
      have running := List.mem_of_getElem? runs
      have asked := (Machine.asks task_names reached q _ running).1
      rcases call_broker answers with same | ⟨e, c, r, rfl, answered⟩
      · exact ih message (same ▸ mem)
      · rcases (respond_responds answered).logged mem with old | ⟨nc, subject, rfl⟩
        · exact ih message old
        · obtain ⟨p, ev, rfl, named, encoded⟩ := asked _ _ _ _ rfl
          exact ⟨ev, ⟨p, _, running⟩, named, encoded⟩
    | @background b env moves =>
      cases b with
      | again k =>
        obtain ⟨stores, _, rfl⟩ := Option.map_eq_some_iff.mp moves
        exact ih message mem
      | broker b =>
        obtain ⟨s, moved, rfl⟩ := Option.map_eq_some_iff.mp moves
        refine ih message ?_
        rw [← (background_drifts moved).logged]
        exact mem

/-! ## At least once -/

theorem logged_held_or_filed {cfg : Settings} {among : Config → Prop} {w : State codec cfg}
    (reach : (deployment codec cfg among).Reachable w) {k : Nat} {message : String × codec.Payload}
    (found : w.env.broker.ledger.log[k]? = some message) :
    w.env.broker.ledger.Held k ∨ ∃ ev c, codec.unmarshal message.2 = some ev ∧ among c ∧
    Filed c ev w.env.stores := by
  have seen : ((view codec).ledger w.env.broker).log[k]? = some message.2 := by
    show (w.env.broker.ledger.log.map Prod.snd)[k]? = _
    rw [List.getElem?_map, found]
    rfl
  rcases held_or_filed (nats_careful cfg) (by rintro _ rfl; rfl) reach seen with ⟨_, due⟩ | filed
  · exact .inl ⟨(List.getElem?_eq_some_iff.mp found).1, due⟩
  · exact .inr filed

theorem published_held_or_filed {cfg : Settings} {among : Config → Prop} {w : State codec cfg}
    (reach : (deployment codec cfg among).Reachable w)
    (identical : Projection.Identical (Published w)) {p : Nat} {ev : MessageCreated}
    (returned : (.publication p ev, .ret true) ∈ w.procs) :
    ∃ k : Nat, (∃ payload, codec.marshal ev = some payload ∧
      w.env.broker.ledger.log[k]? = some (formatInt ev.id 10, payload)) ∧
      (w.env.broker.ledger.Held k ∨ ∃ c, among c ∧ Filed c ev w.env.stores) := by
  obtain ⟨k, payload, logged⟩ :=
    (nats_confirms codec cfg).accepted (by rintro _ rfl; exact nofun) reach returned
  -- the message with the event's identifier is the event's
  obtain ⟨ev', published, named, encoded⟩ := issued reach _ (List.mem_of_getElem? logged)
  obtain rfl := identical ev ev' ⟨p, _, returned⟩ published (formatInt_ten_injective named)
  refine ⟨k, ⟨payload, encoded, logged⟩, ?_⟩
  rcases logged_held_or_filed reach logged with held | ⟨ev', c, decoded, configured, filed⟩
  · exact .inl held
  · cases (codec.unmarshal_marshal ev payload encoded).symm.trans decoded
    exact .inr ⟨c, configured, filed⟩

/-- **At least once.** Whatever consumers run and crash, whatever answers are lost and whatever is
handed out again: if events are told apart by their identifiers, an event whose `Publish` returned
`nil` is in the stream, also where the stream took it for a repetition; and a message of the stream
is still due to the durable consumer, or it was decoded and is filed in every store of a
consumer. -/
theorem nats_at_least_once {cfg : Settings} {among : Config → Prop} {w : State codec cfg}
    (reach : (deployment codec cfg among).Reachable w)
    (identical : Projection.Identical (Published w)) :
    (∀ p ev, (.publication p ev, .ret true) ∈ w.procs → ∃ k : Nat,
      (∃ payload, codec.marshal ev = some payload ∧
        w.env.broker.ledger.log[k]? = some (formatInt ev.id 10, payload)) ∧
      (w.env.broker.ledger.Held k ∨ ∃ c, among c ∧ Filed c ev w.env.stores)) ∧
    ∀ (k : Nat) message, w.env.broker.ledger.log[k]? = some message → w.env.broker.ledger.Held k ∨
      ∃ ev c, codec.unmarshal message.2 = some ev ∧ among c ∧ Filed c ev w.env.stores :=
  ⟨fun _ _ returned => published_held_or_filed reach identical returned, fun _ _ found =>
    logged_held_or_filed reach found⟩

/-- One server. -/
def oneServer : Settings := ⟨["nats://nats-1"], "OTUS", "otus.messages", "otus-consumer", 1⟩

/-- The answer to a publication is lost; it is repeated, and taken for the repetition it is. The
message is handed out twice, and handled and acknowledged by the second consumer. -/
def repeated :
    List (Move (Task (nats plainCodec oneServer)) (Broker.Choice Choice) (Quiet Background)) :=
  let go (i : Nat) (c : Choice) := Move.go i (.client c)
  let consumer := .arrive (.consumer (Projection.bothStores "nats") 4)
  [.arrive (.publication (0 : Nat) (Projection.createdAt 7)), go 0 (.published true false),
    .arrive (.publication (0 : Nat) (Projection.createdAt 7)), go 1 (.published true true),
    consumer, .go 2 (.ok true), go 2 (.ok true), go 2 (.ok true), go 2 (.ok true), go 2 (.ok true),
    go 2 (.ok true),
    .background (.broker (.deliver 0 0)), .go 2 (.ok true), go 2 (.received 0),
    .go 2 (.fate .failed), go 2 .done, go 2 .done,
    .background (.broker (.expire 0)),
    consumer, .go 3 (.ok true), go 3 (.ok true), go 3 (.ok true), go 3 (.ok true), go 3 (.ok true),
    go 3 (.ok true),
    .background (.broker (.deliver 1 0)), .go 3 (.ok true), go 3 (.received 0), .go 3 (.fate .done),
    .go 3 (.fate .done),
    go 3 (.acked true true)]

theorem nats_at_least_once_repeated :
    ∃ w, (deployment plainCodec oneServer fun _ => True).Reachable w ∧
    w.env.broker.ledger.log.length = 1 ∧ w.env.broker.ledger.acked = [0] ∧
    ∃ c, Filed c (Projection.createdAt 7) w.env.stores := by
  have replayed : ∃ w, System.replay (fun s e => if true then ((service plainCodec.Payload).machine
      (nats plainCodec oneServer)).step s e else none) ⟨⟨.empty, Projection.empty⟩, [], []⟩
        repeated = some w ∧
      w.env.broker.ledger.log.length = 1 ∧ w.env.broker.ledger.acked = [0] ∧
      w.procs.map Prod.fst = [.publication (0 : Nat) (Projection.createdAt 7),
        .publication (0 : Nat) (Projection.createdAt 7),
        .consumer (Projection.bothStores "nats") 4, .consumer (Projection.bothStores "nats") 4] ∧
      w.procs[1]? = some (.publication (0 : Nat) (Projection.createdAt 7), .ret true) :=
    ⟨_, rfl, rfl, rfl, rfl, rfl⟩
  obtain ⟨w, run, length, acked, tasks, second⟩ := replayed
  have reached : (deployment plainCodec oneServer fun _ => True).Reachable w :=
    ⟨_, ⟨⟨rfl, rfl⟩, rfl, rfl⟩, System.Runs.of_checked (fun _ _ _ _ _ _ => trivial) run⟩
  have only : ∀ ev, Published w ev → ev = Projection.createdAt 7 := by
    rintro ev ⟨p, rest, mem⟩
    have mem := List.mem_map_of_mem (f := Prod.fst) mem
    rw [tasks] at mem
    rcases List.mem_cons.mp mem with first | mem
    · cases first
      rfl
    · rcases List.mem_cons.mp mem with second | mem
      · cases second
        rfl
      · rcases List.mem_cons.mp mem with third | fourth
        · cases third
        · cases List.mem_singleton.mp fourth
  obtain ⟨k, ⟨payload, -, found⟩, held | filed⟩ := (nats_at_least_once reached
    fun ev ev' known known' _ => (only ev known).trans (only ev' known').symm).1 _ _
      (List.mem_of_getElem? second)
  · have bound := (List.getElem?_eq_some_iff.mp found).1
    rw [length] at bound
    obtain rfl : k = 0 := Nat.lt_one_iff.mp bound
    exact absurd (acked ▸ List.mem_cons_self) held.2
  · obtain ⟨c, -, filed⟩ := filed
    exact ⟨w, reached, length, acked, c, filed⟩

end OtusApp.Broker.Nats
