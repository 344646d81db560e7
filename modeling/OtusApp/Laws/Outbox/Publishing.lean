import OtusApp.Laws.Broker.RabbitConn
import OtusApp.Laws.Outbox.Run
import OtusApp.Outbox.Publishing

/-!
# A worker holds one connection to RabbitMQ

The worker keeps its publisher over many deliveries, drops it at an error and makes another. That it
has one publisher at a time is its own discipline; that a publisher has one connection, and leaves
none behind when it fails or is closed, is the client's. The two protocols meet in one relation
between the worker's open publisher and the line (`Joined`).
-/

namespace OtusApp.Outbox.Publishing

open Messaging Program
open Broker.Rabbit (RabbitConn Settings Line Keeps Step wiring Tidy dialled released)

variable {P : Type} {codec : EventCodec}

/-- The protocol of the client; the worker's own calls have nothing to do with connections. -/
def wires : Protocol (Call P) Call.Result Line := fun m e =>
  match e with
  | .own _ => some fun _ => m
  | .broker e => wiring m e

/-- The publisher the worker has open holds the line; without one nothing is open. -/
def Joined (m : Run.Mode) (made : List RabbitConn) (line : Line) : Prop :=
  (m.publisher = none → line = .idle) ∧ ∀ p, m.publisher = some p →
  ∃ r, made[p]? = some r ∧ Keeps r line

theorem Joined.idle {hand : Run.Hand} {made : List RabbitConn} : Joined ⟨none, hand⟩ made .idle :=
  ⟨fun _ => rfl, nofun⟩

theorem Joined.opened {hand : Run.Hand} {made : List RabbitConn} {p : Nat} {r : RabbitConn}
    {line : Line} (found : made[p]? = some r) (keeps : Keeps r line) :
    Joined ⟨some p, hand⟩ made line :=
  ⟨nofun, by rintro _ ⟨⟩; exact ⟨r, found, keeps⟩⟩

theorem newRabbitPublisher_wired (cfg : Settings) :
    (Broker.Rabbit.newRabbitPublisher cfg : Broker.Rabbit.Code P _).Follows wiring
      (fun line a => (a.1 = none → line = .idle) ∧ ∀ r, a.1 = some r → Keeps r line) .idle := by
  rw [Broker.Rabbit.newRabbitPublisher]
  split
  · exact ⟨fun _ => rfl, nofun⟩
  · refine (Broker.Rabbit.channel_wired ⟨rfl, rfl, rfl⟩ true).bind ?_
    rintro line ⟨ch, r⟩ ⟨keeps, is⟩
    cases ch with
    | none =>
      refine ⟨fun _ => ?_, nofun⟩
      rw [keeps.line, ← is]
      rfl
    | some ch =>
      refine ⟨nofun, ?_⟩
      rintro _ ⟨⟩
      exact keeps

/-- A program of the client, as part of the worker. -/
theorem ofClient_wired {α : Type} {post : Line → α → Prop} {x : Broker.Rabbit.Code P α}
    {line : Line} (h : x.Follows wiring post line) : (ofClient x).Follows wires post line := by
  refine Prog.Follows.lift ?_ h
  intro line e onward admitted
  exact admitted

private theorem getElem?_set_made {made : List RabbitConn} {p : Nat} {r : RabbitConn}
    (found : made[p]? = some r) (r' : RabbitConn) : (made.set p r')[p]? = some r' :=
  List.getElem?_set_self (List.getElem?_eq_some_iff.mp found).1

/-- A call that is not to the publisher leaves it, and the line, as they are. -/
theorem implement_own {cfg : Settings} {m : Run.Mode} {made : List RabbitConn} {line : Line}
    (h : Joined m made line) {e : Run.Call} {m' : e.Result → Run.Mode}
    (same : ∀ r, (m' r).publisher = m.publisher)
    (is : implement codec cfg e made = do let r : e.Result ← .ask (Call.own e) return (r, made)) :
    (implement codec cfg e made).Follows wires (fun line r => Joined (m' r.1) r.2 line) line := by
  rw [is]
  refine ⟨_, rfl, fun r => ?_⟩
  show Joined _ _ _
  rw [Joined, same r]
  exact h

theorem implement_joined (cfg : Settings) {m : Run.Mode} {made : List RabbitConn} {line : Line}
    (h : Joined m made line) {e : Run.Call} {onward : e.Result → Run.Mode}
    (admitted : Run.Admitted m e onward) :
    (implement codec cfg e made).Follows wires (fun line r =>
      Joined (onward r.1) r.2 line) line := by
  cases admitted with
  | factory hand target =>
    obtain rfl := h.1 rfl
    refine (ofClient_wired (newRabbitPublisher_wired cfg)).bind ?_
    rintro line ⟨r, ok⟩ ⟨without, withOne⟩
    cases r with
    | none =>
      obtain rfl := without rfl
      exact .idle
    | some r => exact .opened List.getElem?_concat_length (withOne r rfl)
  | publish p d =>
    obtain ⟨r, found, keeps⟩ := h.2 p rfl
    rw [implement, found]
    refine (ofClient_wired (Broker.Rabbit.publish_wired codec keeps d.event)).bind ?_
    rintro line ⟨ok, r'⟩ keeps'
    exact .opened (getElem?_set_made found r') keeps'
  | close p hand =>
    obtain ⟨r, found, keeps⟩ := h.2 p rfl
    rw [implement, found]
    refine (ofClient_wired (Broker.Rabbit.closeLocked_wired keeps)).bind ?_
    rintro _ r' ⟨rfl, _⟩
    exact .idle
  | claim | unpublished | refused | delivered => exact implement_own h (fun _ => rfl) rfl
  | other gives closes deals =>
    cases e with
    | factory => cases gives (some 0, true)
    | publish => cases deals true
    | close => cases closes ()
    | _ => exact implement_own h (fun _ => rfl) rfl

/-- The worker follows the client's protocol, and returns with nothing open. -/
theorem worker_wired (codec : EventCodec) (cfg : Settings) (turns : Nat) :
    (worker codec cfg turns).Follows wires (fun line r => r.1 = true → line = .idle) .idle := by
  have implemented : ∀ m made line e onward, Joined m made line → Run.discipline m e = some onward →
      (implement codec cfg e made).Follows wires (fun line r =>
        Joined (onward r.1) r.2 line) line :=
    fun m made line e onward joined call => implement_joined cfg joined (Run.admitted call)
  refine (Prog.Follows.expand Joined implemented (Run.run_orderly "rabbitmq" turns) .idle).mono ?_
  rintro line ⟨returned, made⟩ ⟨m, finished, joined⟩ stopped
  obtain rfl := finished stopped
  exact joined.1 rfl

/-! ## Its traces -/

/-- The calls of the client. -/
def ofBroker : ((e : Call P) × e.Result) → Option (Step P)
  | ⟨.own _, _⟩ => none
  | ⟨.broker e, r⟩ => some ⟨e, r⟩

theorem walk_wires (line : Line) (trace : Trace (Call P) Call.Result) :
    walk wires line trace = walk wiring line (trace.filterMap ofBroker) := by
  refine walk_filterMap ofBroker ?_ ?_ line trace
  · rintro line ⟨e, r⟩ step' picked
    cases e with
    | own e => cases picked
    | broker e =>
      cases picked
      rfl
  · rintro line ⟨e, r⟩ picked
    cases e with
    | own e => rfl
    | broker e => cases picked

/-- **One connection.** However the calls of the worker and of its client end, at any time of its
run the worker holds at most one connection to RabbitMQ and uses no other; and when it has returned,
every socket it ever opened is closed. -/
theorem worker_tidy {cfg : Settings} {turns : Nat}
    {outcomes : List ((e : Call codec.Payload) → e.Result)}
    {rest : Code codec.Payload (Bool × List RabbitConn)}
    {trace : Trace (Call codec.Payload) Call.Result}
    (runs : (worker codec cfg turns).after Prog.record [] outcomes = some (rest, trace)) :
    Tidy (trace.filterMap ofBroker) ∧
      ∀ made, rest = .ret (true, made) → dialled (trace.filterMap ofBroker) = released
        (trace.filterMap ofBroker) := by
  obtain ⟨line, reached, follows⟩ := (worker_wired codec cfg turns).recorded runs
  rw [walk_wires] at reached
  refine ⟨Broker.Rabbit.tidy_of_walk reached, ?_⟩
  rintro made rfl
  obtain rfl := follows rfl
  exact (Broker.Rabbit.wiring_walk reached).1.trans (List.append_nil _)

/-- One delivery after another is claimed, every connection turns out to be closed, and no
publication is written. -/
def broken (ok : Bool) : (e : Call P) → e.Result
  | .own .err => ok
  | .own .now => (0 : Int)
  | .own (.outboxStats _) => ok
  | .own (.claim _ _) => (some ⟨1, "rabbitmq", "t", 1, ⟨1, "a", "c", 7, "otus-app"⟩⟩, ok)
  | .own (.factory _) => (none, ok)
  | .own (.publish _ _) => ok
  | .own (.close _) => ()
  | .own (.retry _ _) => ok
  | .own (.complete _) => ok
  | .own .draw => (0 : Nat)
  | .own (.wait _) => ok
  | .broker e => Broker.Rabbit.alike ok e

theorem worker_tidy_broken :
    ∃ made trace, (worker plainCodec ⟨["amqp://rabbit-1"], "otus.messages", 32⟩ 2).after
      Prog.record []
      (List.replicate 42 (broken true) ++ [broken false]) = some (.ret (true, made), trace) ∧
    dialled (trace.filterMap ofBroker) = [5, 5, 5] ∧
    dialled (trace.filterMap ofBroker) = released (trace.filterMap ofBroker) := by
  have runs : ∃ made trace, (worker plainCodec ⟨["amqp://rabbit-1"], "otus.messages", 32⟩ 2).after
    Prog.record []
      (List.replicate 42 (broken true) ++ [broken false]) = some (.ret (true, made), trace) ∧
      dialled (trace.filterMap ofBroker) = [5, 5, 5] := ⟨_, _, rfl, rfl⟩
  obtain ⟨made, trace, run, sockets⟩ := runs
  exact ⟨made, trace, run, sockets, (worker_tidy run).2 made rfl⟩

end OtusApp.Outbox.Publishing
