import OtusApp.Broker.Kafka
import OtusApp.Laws.Consumer.Offsets
import OtusApp.Lib.Trace

/-!
# The machine of a reader is its loop

A reader stands in front of a call of `supervise` over the Kafka consumer (`Stage`), and a reply
takes it to the next one where the calls in between are the code's own: the context, the writes of
`handle`, the `Close` of a consumer. What is left of the program where the reader stands (`code`)
goes on with the reply to what is left of it where the reader stands then (`resume_goes`), so a
reader of a group is at any time where some run of the program is (`group_under_way`), until its
process dies.

There are two loops, one inside the other, so what is left depends on two numbers of iterations to
come.
-/

namespace OtusApp.Consumer

open Messaging Go Resilience Program
open Broker (counting closing session supervise running pause)
open Broker.Kafka (kafka iterate received handled committed)
open Projection (Config)

variable {codec : EventCodec} (cfg : Config) (s : Broker.Kafka.Settings)

/-- A program over the calls of the Kafka client. -/
abbrev Code (codec : EventCodec) := Broker.Kafka.Code codec.Payload

/-- `supervise` behind a session. -/
def restart (again : Nat → Code codec Bool) : Option Nat → Code codec Bool
  | none => return false
  | some attempt => do
    if !(← running) then return true
    let source : Nat ← .ask Broker.Call.draw
    if ← pause (attempt + 1) source then again (attempt + 1) else return true

/-- A session behind `Consume`. -/
def shut : Option Nat → Code codec (Option Nat)
  | none => return none
  | some attempt => do
    Broker.Kafka.call (.close 0)
    return some attempt

/-- What follows an iteration of `Consume`, with so many iterations of `supervise` to come. -/
def conclude (turns : Nat) (x : Code codec (Option Nat)) : Code codec Bool :=
  x >>= shut >>= restart (supervise (kafka codec s) cfg turns)

/-- What is left of `supervise` where a reader stands, with so many iterations of it to come, and of
`Consume`. -/
def code (turns inner : Nat) (w : Reader codec.Payload) : Code codec Bool :=
  match w.stage with
  | .head => supervise (kafka codec s) cfg turns w.attempt
  | .connecting =>
    session (kafka codec s) cfg turns w.attempt >>= restart (supervise (kafka codec s) cfg turns)
  | .fetching => conclude cfg s turns (iterate codec (counting cfg) 0 inner w.attempt)
  | .sleeping => conclude cfg s turns do
    Broker.sleep Duration.second
    iterate codec (counting cfg) 0 inner w.attempt
  | .handling p r ev => conclude cfg s turns do
    handled (iterate codec (counting cfg) 0 inner) 0 p r (← counting cfg ev w.attempt)
  | .committing p r => conclude cfg s turns
    (handled (iterate codec (counting cfg) 0 inner) 0 p r (true, w.attempt))
  | .ended => restart (supervise (kafka codec s) cfg turns) (some w.attempt)
  | .pausing delay => do
    let ok : Bool ← .ask (Broker.Call.wait delay)
    if ok then supervise (kafka codec s) cfg turns w.attempt else return true
  | .returned => return true

/-- The draw of a reply. -/
def Reply.source {P : Type} : Reply P → Nat
  | .closed source => source
  | _ => 0

/-- Whether a reply says that all went well. -/
def Reply.ok {P : Type} : Reply P → Bool
  | .handled ok => ok
  | .committed ok => ok
  | _ => true

/-- The record of a reply. -/
def Reply.record {P : Type} : Reply P → Option (Nat × Record P)
  | .fetched p r => some (p, r)
  | _ => none

/-- How the calls end that a reply stands for. -/
def outcome {P : Type} (cancelled : Bool) (reply : Reply P) :
    (e : Broker.Call (Broker.Kafka.Call P)) → e.Result Broker.Kafka.Call.Result
  | .err => !cancelled
  | .sleep _ => ()
  | .draw => reply.source
  | .wait _ => !cancelled
  | .write _ => reply.ok
  | .client (.ensureTopic ..) => true
  | .client (.newReader ..) => (0 : Nat)
  | .client (.fetchMessage _) => reply.record
  | .client (.commitMessages ..) => reply.ok
  | .client (.writeMessages ..) => true
  | .client (.close _) => ()

/-- One of the two programs is what is left of the other, the calls between them ending as the reply
says. -/
abbrev Goes (cancelled : Bool) (reply : Reply codec.Payload) (x y : Code codec Bool) : Prop :=
  Prog.Goes Prog.record (outcome cancelled reply) x y

theorem Goes.call {cancelled : Bool} {reply : Reply codec.Payload}
    {e : Broker.Call (Broker.Kafka.Call codec.Payload)}
    {k : e.Result Broker.Kafka.Call.Result → Code codec Bool} {y : Code codec Bool}
    (h : Goes cancelled reply (k (outcome cancelled reply e)) y) :
    Goes cancelled reply (.call e k) y :=
  Prog.Goes.call (fun _ => ⟨_, rfl⟩) h

variable {cfg s}

/-- `handle` returns `nil` where its writes do. -/
theorem counting_goes {cancelled ok : Bool} {ev : MessageCreated} {attempt : Nat}
    {k : Bool × Nat → Code codec Bool} {y : Code codec Bool}
    (h : Goes cancelled (.handled ok) (k (ok, if ok then 0 else attempt)) y) :
    Goes cancelled (.handled ok) (counting cfg ev attempt >>= k) y := by
  obtain ⟨broker, events, index, configured⟩ := cfg
  cases events with
  | true =>
    refine Goes.call ?_
    cases ok with
    | false => exact h
    | true =>
      cases index with
      | true => exact Goes.call h
      | false => exact h
  | false =>
    cases index with
    | true => exact Goes.call h
    | false => simp at configured

theorem conclude_bind {α : Type} (turns : Nat) (x : Code codec α)
    (f : α → Code codec (Option Nat)) :
    conclude cfg s turns (x >>= f) = x >>= fun a => conclude cfg s turns (f a) := by
  unfold conclude
  rw [Prog.bind_assoc x f shut, Prog.bind_assoc]

theorem newConsumer_failed (noBrokers : s.brokers = []) :
    (kafka codec s).newConsumer = return none := by
  simp only [kafka, Broker.Kafka.newKafkaConsumer, if_pos noBrokers]

theorem newConsumer_made (brokers : s.brokers ≠ []) : (kafka codec s).newConsumer = do
    let _ ← Broker.Kafka.call (.ensureTopic s.brokers s.topic s.partitions s.replicas)
    let reader : Nat ← Broker.Kafka.call (.newReader s.brokers s.topic s.group)
    return Option.some reader := by
  simp only [kafka, Broker.Kafka.newKafkaConsumer, if_neg brokers]

/-- A consumer that was made consumes, and is closed. -/
theorem consumes_goes {cancelled : Bool} {reply : Reply codec.Payload} {turns attempt : Nat}
    (brokers : s.brokers ≠ []) :
    Goes cancelled reply
      (session (kafka codec s) cfg turns attempt >>= restart (supervise (kafka codec s) cfg turns))
      (conclude cfg s turns (iterate codec (counting cfg) 0 turns attempt)) := by
  rw [session, newConsumer_made brokers]
  refine Goes.call (Goes.call ?_)
  have same : iterate codec (counting cfg) 0 turns attempt >>= shut =
      Broker.Kafka.consume codec turns (counting cfg) 0 attempt >>= closing (kafka codec s) := by
    refine Eq.trans ?_ (Prog.bind_assoc (iterate codec (counting cfg) 0 turns attempt) _ _).symm
    refine congrArg (iterate codec (counting cfg) 0 turns attempt >>= ·) (funext fun result => ?_)
    cases result <;> rfl
  rw [conclude, same]
  exact Prog.Goes.refl _ _

/-- **The machine of the reader is the program**: with each reply the reader goes on to where the
program is after the calls the reply stands for. -/
theorem resume_goes {w w' : Reader codec.Payload} {reply : Reply codec.Payload}
    (connects : ∀ ok, reply = .connected ok → (ok = true ↔ s.brokers ≠ []))
    (h : w.resume codec reply = some w') {least turns inner : Nat} (more : least < turns)
    (more' : least < inner) :
    ∃ turns' inner', least ≤ turns' ∧ least ≤ inner' ∧
      Goes w.cancelled reply (code cfg s turns inner w) (code cfg s turns' inner' w') := by
  obtain ⟨cancelled, attempt, stage⟩ := w
  obtain ⟨turns, rfl⟩ : ∃ n, turns = n + 1 := ⟨turns - 1, by omega⟩
  obtain ⟨inner, rfl⟩ : ∃ n, inner = n + 1 := ⟨inner - 1, by omega⟩
  -- the loop of `supervise` uses one of its iterations at its head, that of `Consume` at a fetch
  cases resumes h with
  | checked =>
    refine ⟨turns, inner, by omega, by omega, Goes.call ?_⟩
    cases cancelled <;> exact Prog.Goes.refl _ _
  | connected ok =>
    have made := connects ok rfl
    refine ⟨turns + 1, turns + 1, by omega, by omega, ?_⟩
    cases ok with
    | false =>
      have noBrokers : s.brokers = [] := by simpa using made
      show Goes _ _ (session (kafka codec s) cfg (turns + 1) attempt >>= _) _
      rw [session, newConsumer_failed noBrokers]
      exact Prog.Goes.refl _ _
    | true => exact consumes_goes (made.mp rfl)
  | undecoded p r unread =>
    refine ⟨turns + 1, inner, by omega, by omega, Goes.call ?_⟩
    show Goes _ _ (conclude cfg s (turns + 1)
      (received codec (counting cfg) (iterate codec (counting cfg) 0 inner) 0 p r attempt)) _
    rw [received, unread]
    exact Goes.call (Prog.Goes.refl _ _)
  | decoded p r read =>
    refine ⟨turns + 1, inner, by omega, by omega, Goes.call ?_⟩
    show Goes _ _ (conclude cfg s (turns + 1)
      (received codec (counting cfg) (iterate codec (counting cfg) 0 inner) 0 p r attempt)) _
    rw [received, read]
    exact Prog.Goes.refl _ _
  | fetchFailed =>
    refine ⟨turns + 1, inner, by omega, by omega, Goes.call (Goes.call ?_)⟩
    cases cancelled with
    | true => exact Goes.call (Prog.Goes.refl _ _)
    | false => exact Prog.Goes.refl _ _
  | slept => exact ⟨turns + 1, inner + 1, by omega, by omega, Goes.call (Prog.Goes.refl _ _)⟩
  | filed p r ev =>
    refine ⟨turns + 1, inner + 1, by omega, by omega, ?_⟩
    show Goes _ _ (conclude cfg s (turns + 1) (counting cfg ev attempt >>= _)) _
    rw [conclude_bind]
    exact counting_goes (Prog.Goes.refl _ _)
  | unfiled p r ev =>
    refine ⟨turns + 1, inner + 1, by omega, by omega, ?_⟩
    show Goes _ _ (conclude cfg s (turns + 1) (counting cfg ev attempt >>= _)) _
    rw [conclude_bind]
    exact counting_goes (Goes.call (Prog.Goes.refl _ _))
  | committed p r ok =>
    refine ⟨turns + 1, inner + 1, by omega, by omega, Goes.call ?_⟩
    cases ok with
    | true => exact Prog.Goes.refl _ _
    | false => exact Goes.call (Prog.Goes.refl _ _)
  | stopped source isCancelled =>
    subst isCancelled
    exact ⟨turns + 1, inner + 1, by omega, by omega, Goes.call (Prog.Goes.refl _ _)⟩
  | paused source goesOn drawn =>
    subst goesOn
    refine ⟨turns + 1, inner + 1, by omega, by omega, Goes.call (Goes.call ?_)⟩
    show Goes _ _ (pause (attempt + 1) source >>= _) _
    rw [pause, drawn]
    exact Prog.Goes.refl _ _
  | waited delay =>
    refine ⟨turns + 1, inner + 1, by omega, by omega, Goes.call ?_⟩
    cases cancelled <;> exact Prog.Goes.refl _ _

/-- What becomes of a reader: it is resumed, and its context is cancelled. A consumer is made where
there are brokers to read from. -/
inductive Becomes (s : Broker.Kafka.Settings) (w : Reader codec.Payload) :
    Reader codec.Payload → Prop
  | refl : Becomes s w w
  | resume {w' w'' : Reader codec.Payload} {reply : Reply codec.Payload} (before : Becomes s w w')
      (connects : ∀ ok, reply = .connected ok → (ok = true ↔ s.brokers ≠ []))
      (step : w'.resume codec reply = some w'') : Becomes s w w''
  | cancel {w' : Reader codec.Payload} (before : Becomes s w w') :
      Becomes s w { w' with cancelled := true }

/-- A reader is at any time where some run of `supervise` is, with as many iterations to come as one
likes. -/
theorem under_way {w : Reader codec.Payload} (h : Becomes s Reader.start w) (least : Nat) :
    ∃ turns inner total outcomes trace, least ≤ turns ∧ least ≤ inner ∧
      (supervise (kafka codec s) cfg total 0).after Prog.record [] outcomes =
        some (code cfg s turns inner w, trace) := by
  induction h generalizing least with
  | refl => exact ⟨least, least, least, [], [], le_rfl, le_rfl, by rw [Prog.after]; rfl⟩
  | resume before connects step ih =>
    obtain ⟨turns, inner, total, _, _, more, more', runs⟩ := ih (least + 1)
    obtain ⟨turns', inner', enough, enough', goes⟩ := resume_goes connects step more more'
    obtain ⟨outcomes, trace, onward⟩ := goes.after runs
    exact ⟨turns', inner', total, outcomes, trace, enough, enough', onward⟩
  | cancel _ ih => exact ih least

/-! ## In a group -/

/-- A consumer is made where there are brokers to read from. -/
def Connects (s : Broker.Kafka.Settings) (mv : Move codec.Payload) : Prop :=
  ∀ i ok, mv = .connect i ok → (ok = true ↔ s.brokers ≠ [])

/-- The readers of a group that were not killed are where a reader can be. -/
def Running (s : Broker.Kafka.Settings) (members : List (Member codec.Payload)) : Prop :=
  ∀ m ∈ members, m.reader.stage = .returned ∨ Becomes s Reader.start m.reader

theorem Running.resume {g t : Group codec} (h : Running s g.members) {i : Nat}
    {reply : Reply codec.Payload} {positions : (Nat → Option Nat) → Nat → Option Nat}
    (step : g.resume i reply positions = some t)
    (connects : ∀ ok, reply = .connected ok → (ok = true ↔ s.brokers ≠ [])) :
    Running s t.members := by
  obtain ⟨m, w', found, resumed, rfl⟩ := resume_some step
  intro m' mem
  rcases List.mem_or_eq_of_mem_set mem with old | rfl
  · exact h m' old
  · rcases h m (List.mem_of_getElem? found) with returned | before
    · simp [Reader.resume, returned] at resumed
    · exact .inr (before.resume connects resumed)

theorem Running.modify {members : List (Member codec.Payload)} (h : Running s members) (i : Nat)
    {f : Member codec.Payload → Member codec.Payload}
    (runs : ∀ m, m.reader.stage = .returned ∨ Becomes s Reader.start m.reader →
      (f m).reader.stage = .returned ∨ Becomes s Reader.start (f m).reader) :
    Running s (members.modify i f) := by
  intro m mem
  obtain ⟨j, found⟩ := List.mem_iff_getElem?.mp mem
  rw [List.getElem?_modify] at found
  obtain ⟨old, there, same⟩ := Option.map_eq_some_iff.mp found
  have was := h old (List.mem_of_getElem? there)
  split at same
  · exact same ▸ runs old was
  · exact same ▸ was

theorem Running.step {g t : Group codec} (h : Running s g.members) {mv : Move codec.Payload}
    (connects : Connects s mv) (step : g.next mv = some t) : Running s t.members := by
  cases mv with
  | append =>
    cases step
    exact h
  | start =>
    cases step
    intro m mem
    rcases List.mem_append.mp mem with old | new
    · exact h m old
    · rw [List.mem_singleton.mp new]
      exact .inr .refl
  | cancel i =>
    cases step
    exact h.modify i fun m was => was.imp id Becomes.cancel
  | crash i =>
    cases step
    exact h.modify i fun m _ => .inl rfl
  | assign i =>
    cases step
    exact h.modify i fun m was => was
  | connect i ok =>
    have resumed : g.resume i (.connected ok) (fun _ _ => none) = some t := step
    exact h.resume resumed fun _ same => connects i _ (by cases same; rfl)
  | check | fetchFail | sleep | close | wait => exact h.resume step nofun
  | fetch =>
    obtain ⟨_, _, step⟩ := Option.bind_eq_some_iff.mp step
    obtain ⟨_, _, step⟩ := Option.bind_eq_some_iff.mp step
    obtain ⟨_, _, step⟩ := Option.bind_eq_some_iff.mp step
    exact h.resume step nofun
  | handle i ok =>
    obtain ⟨_, _, step⟩ := Option.bind_eq_some_iff.mp step
    split at step
    · refine Running.resume ?_ step nofun
      exact h
    · cases step
  | commit i ok now =>
    obtain ⟨_, _, step⟩ := Option.bind_eq_some_iff.mp step
    split at step
    · refine Running.resume ?_ step nofun
      cases now <;> exact h
    · cases step
  | land k =>
    obtain ⟨_, _, same⟩ := Option.bind_eq_some_iff.mp step
    cases same
    exact h

/-- **The readers of a group run `supervise`.** Each reader of a group that was not killed is at any
time where some run of the program is. -/
theorem group_under_way {g : Group codec}
    (h : ((group codec).restrict fun _ mv => Connects s mv).Reachable g) (cfg : Config) :
    ∀ m ∈ g.members, m.reader.stage = .returned ∨
      ∃ turns inner total outcomes trace,
      (supervise (kafka codec s) cfg total 0).after Prog.record [] outcomes =
        some (code cfg s turns inner m.reader, trace) := by
  have running : Running s g.members := by
    refine h.invariant (I := fun g => Running s g.members) ?_ ?_
    · intro g fresh m mem
      rw [fresh.members] at mem
      cases mem
    · rintro g mv t _ ih ⟨connects, step⟩
      exact ih.step connects step
  intro m mem
  refine (running m mem).imp_right fun become => ?_
  obtain ⟨turns, inner, total, outcomes, trace, _, _, runs⟩ := under_way become 0
  exact ⟨turns, inner, total, outcomes, trace, runs⟩

end OtusApp.Consumer
