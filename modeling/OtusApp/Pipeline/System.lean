import OtusApp.Broker.Nats
import OtusApp.Broker.Rabbit
import OtusApp.Consumer.Group
import OtusApp.Outbox.Replicas

/-!
# From the outbox to the stores

The outbox workers of all replicas over their database, and the three brokers with their
publications and consumers, side by side. They meet in `Publish`: a publication begins when a worker
is about to publish the event to that broker, and a worker goes on with `nil` only when a
publication of its event has returned `nil`.

A broker with everything around it is a `Channel`. RabbitMQ and NATS are deployments of their
clients; of Kafka a publication that returned `nil` is a record of the topic, as `RequireAll` has
it.
-/

namespace OtusApp.Pipeline

open Messaging Program Transition
open Projection (Config)

/-- A broker with its publications and consumers. `Begun` and `Accepted` are the events whose
`Publish` was called, and has returned `nil`. -/
structure Channel where
  State : Type
  Label : Type
  system : System State Label
  begins : Label → Option MessageCreated
  Begun : MessageCreated → State → Prop
  Accepted : MessageCreated → State → Prop
  fresh : ∀ ev s, system.init s → ¬ Begun ev s
  begun : ∀ ev s l t, system.step s l t → Begun ev t → Begun ev s ∨ begins l = some ev
  stays : ∀ ev s l t, system.step s l t → Accepted ev s → Accepted ev t

section

variable {E : Type} {R : E → Type} {S C B : Type}

/-- The publication that arrives. -/
def arriving {b : Broker.Client E R} :
    Move (Broker.Task b) (Broker.Choice C) (Broker.Quiet B) → Option MessageCreated
  | .arrive (.publication _ ev) => some ev
  | _ => none

/-- A deployment of the client of a broker. -/
def ofClient (sv : Broker.Service E R S C B) (b : Broker.Client E R) (init : S → Prop)
    (among : Config → Prop) : Channel where
  State := Pool (Broker.Task b) (Broker.Call E) (Broker.Call.Result R) Bool (Broker.World S)
  Label := Move (Broker.Task b) (Broker.Choice C) (Broker.Quiet B)
  system := sv.deployment b init among
  begins := arriving
  Begun ev w := ∃ p rest, (.publication p ev, rest) ∈ w.procs
  Accepted ev w := ∃ p, (.publication p ev, .ret true) ∈ w.procs
  fresh := by
    rintro ev w ⟨_, none, _⟩ ⟨p, rest, mem⟩
    rw [none] at mem
    cases mem
  begun := by
    rintro ev w mv w' ⟨_, step⟩ ⟨p, rest, mem⟩
    rcases Machine.request_new step mem with ⟨before, old⟩ | rfl
    · exact .inl ⟨p, before, old⟩
    · exact .inr rfl
  stays := by
    rintro ev w mv w' ⟨_, step⟩ ⟨p, returned⟩
    exact ⟨p, Machine.returned_kept step returned⟩

end

section

variable {codec : EventCodec}

theorem logs_of_resume {s t : Consumer.Group codec} {i : Nat} {reply : Consumer.Reply codec.Payload}
    {positions : (Nat → Option Nat) → Nat → Option Nat} (h : s.resume i reply positions = some t) :
    t.logs = s.logs := by
  obtain ⟨m, _, h⟩ := Option.bind_eq_some_iff.mp h
  obtain ⟨reader, _, h⟩ := Option.bind_eq_some_iff.mp h
  cases h
  rfl

/-- A record stays in its log: the retention of the topic is not modelled. -/
theorem record_kept {s t : Consumer.Group codec} {mv : Consumer.Move codec.Payload}
    (h : s.next mv = some t) {p : Nat} {r : Consumer.Record codec.Payload} (mem : r ∈ s.logs p) :
    r ∈ t.logs p := by
  have same : t.logs = s.logs → r ∈ t.logs p := fun logs => logs ▸ mem
  cases mv with
  | append q value gap =>
    cases h
    show r ∈ Function.update s.logs q _ p
    by_cases here : p = q
    · subst here
      rw [Function.update_self]
      exact List.mem_append_left _ mem
    · rw [Function.update_of_ne here]
      exact mem
  | start | cancel | crash | assign =>
    cases h
    exact mem
  | connect i ok =>
    have resumed : s.resume i (.connected ok) (fun _ _ => none) = some t := h
    exact same (logs_of_resume resumed)
  | check | fetchFail | sleep | close | wait => exact same (logs_of_resume h)
  | fetch i q =>
    obtain ⟨m, _, h⟩ := Option.bind_eq_some_iff.mp h
    obtain ⟨position, _, h⟩ := Option.bind_eq_some_iff.mp h
    obtain ⟨r', _, h⟩ := Option.bind_eq_some_iff.mp h
    exact same (logs_of_resume h)
  | handle i ok =>
    obtain ⟨m, _, h⟩ := Option.bind_eq_some_iff.mp h
    split at h
    · have logs := logs_of_resume h
      exact same logs
    · cases h
  | commit i ok now =>
    obtain ⟨m, _, h⟩ := Option.bind_eq_some_iff.mp h
    split at h
    · refine same ((logs_of_resume h).trans ?_)
      split <;> rfl
    · cases h
  | land k =>
    obtain ⟨⟨q, offset⟩, _, h⟩ := Option.bind_eq_some_iff.mp h
    cases h
    exact mem

/-- A consumer group of Kafka, under two assumptions. What is appended to the topic is not followed
back to its publication: `Accepted` assumes that a `Publish` that returned `nil` has its record
there. And the record stays (`record_kept`): none expires by the retention of the topic before it is
handled. -/
def ofGroup (codec : EventCodec) : Channel where
  State := Consumer.Group codec
  Label := Consumer.Move codec.Payload
  system := Consumer.group codec
  begins _ := none
  Begun _ _ := False
  Accepted ev s := ∃ payload p, codec.marshal ev = some payload ∧ ∃ r ∈ s.logs p, r.value = payload
  fresh _ _ _ := id
  begun _ _ _ _ _ := False.elim
  stays := by
    rintro ev s mv t step ⟨payload, p, encoded, r, mem, value⟩
    exact ⟨payload, p, encoded, r, record_kept step mem, value⟩

end

/-! ## Side by side -/

variable {codec : EventCodec} {ι : Type}

/-- The outbox and the brokers. -/
structure State (codec : EventCodec) (channel : ι → Channel) where
  outbox : Outbox.Replicas codec
  brokers : (b : ι) → (channel b).State

/-- A step of the outbox, or of one broker. -/
inductive Label (channel : ι → Channel)
  | outbox (mv : Outbox.Move)
  | broker (b : ι) (l : (channel b).Label)

/-- The worker is about to publish the event. -/
def Publishing (w : Outbox.Worker) (ev : MessageCreated) : Prop :=
  ∃ d, w.stage = .publishing d ∧ d.event = ev

/-- The step of the whole. The brokers go by the names the outbox has for them. -/
inductive Step [DecidableEq ι] (name : ι → String) {channel : ι → Channel} :
    State codec channel → Label channel → State codec channel → Prop
  | outbox {s : State codec channel} {mv : Outbox.Move} {t : Outbox.Replicas codec}
      (moves : s.outbox.next mv = some t)
      (acknowledged : ∀ i source w ev, mv = .publish i true source → s.outbox.workers[i]? = some w →
        Publishing w ev →
        ∃ b, name b = w.target ∧ (channel b).Accepted ev (s.brokers b)) :
        Step name s (.outbox mv) { s with outbox := t }
  | broker {s : State codec channel} {b : ι} {l : (channel b).Label} {t : (channel b).State}
      (moves : (channel b).system.step (s.brokers b) l t)
      (called : ∀ ev, (channel b).begins l = some ev → ∃ w ∈ s.outbox.workers, Publishing w ev) :
      Step name s (.broker b l) { s with brokers := Function.update s.brokers b t }

/-- The outbox and the brokers as a transition system. -/
def system [DecidableEq ι] (codec : EventCodec) (name : ι → String) (channel : ι → Channel) :
    System (State codec channel) (Label channel) where
  init s := Outbox.Started s.outbox ∧ ∀ b, (channel b).system.init (s.brokers b)
  step := Step name

/-- The brokers `ConfiguredNames` knows. -/
inductive BrokerName
  | kafka
  | rabbitmq
  | nats
deriving DecidableEq

def BrokerName.toString : BrokerName → String
  | .kafka => "kafka"
  | .rabbitmq => "rabbitmq"
  | .nats => "nats"

/-- How the brokers are configured, and the consumers of each. -/
structure Settings where
  rabbit : Broker.Rabbit.Settings
  nats : Broker.Nats.Settings
  rabbitConsumers : Config → Prop
  natsConsumers : Config → Prop

/-- The three brokers. -/
def channels (codec : EventCodec) (cfg : Settings) : BrokerName → Channel
  | .kafka => ofGroup codec
  | .rabbitmq =>
    ofClient (Broker.Rabbit.service codec.Payload) (Broker.Rabbit.rabbit codec cfg.rabbit)
      (fun s => s = .empty)
      cfg.rabbitConsumers
  | .nats =>
    ofClient (Broker.Nats.service codec.Payload) (Broker.Nats.nats codec cfg.nats)
      (fun s => s = .empty)
      cfg.natsConsumers

/-- The program's pipeline. -/
def pipeline (codec : EventCodec) (cfg : Settings) :
    System (State codec (channels codec cfg)) (Label (channels codec cfg)) :=
  system codec BrokerName.toString (channels codec cfg)

end OtusApp.Pipeline
