import OtusApp.Broker.Client
import OtusApp.Laws.Consumer.Projections
import OtusApp.Lib.Acks
import OtusApp.Lib.Protocol

/-!
# What is acknowledged is stored

How a broker's service shows on a ledger of messages and acknowledgements is a `View` of it. A
consumer is careful when it acknowledges only the message in its hands, and only after every write
this one requires has succeeded. That is a protocol over the calls (`careful`), and a client whose
programs follow it (`Careful`) loses no message: whatever the consumers, their number, their crashes
and the broker's moves, a message is held by the broker or stored (`settled`).
-/

namespace OtusApp.Broker

open Messaging Program Transition
open Projection (Config Stores Write Stored)

variable {codec : EventCodec} {E : Type} {R : E → Type} {S C B H : Type}

/-- The ledger of a broker: which calls acknowledge which message, and which answers hand one
out. -/
structure View (codec : EventCodec) (sv : Service E R S C B) (H : Type) where
  ledger : S → Acks.Ledger codec.Payload H
  acks : E → Option Nat
  gives : (e : E) → R e → Option (Nat × codec.Payload)
  call : ∀ s e c r t, sv.respond s e c = some (r, t) →
    Acks.Moves (fun k => acks e = some k) (ledger s) (ledger t)
  given : ∀ s e c r t, sv.respond s e c = some (r, t) → ∀ k p, gives e r = some (k, p) →
    (ledger t).log[k]? = some p
  move : ∀ s b t, sv.background s b = some t → Acks.Moves (fun _ => False) (ledger s) (ledger t)

/-- The writes `handle` makes of an event. -/
def required (cfg : Config) (ev : MessageCreated) : List Write :=
  (if cfg.events then [.batch ev cfg.broker] else []) ++
    if cfg.index then [.document (Projection.document ev cfg.broker)] else []

/-- Where a program is: a consumer with the message in its hands and the writes that succeeded. -/
inductive Mode (P : Type)
  | publishing
  | consuming (cfg : Config) (hand : Option (Nat × P)) (done : List Write)

/-- The message in hand is `k`, and all that is required of it is done. -/
def Due (codec : EventCodec) (cfg : Config) (hand : Option (Nat × codec.Payload))
    (done : List Write) (k : Nat) : Prop :=
  ∃ p ev, hand = some (k, p) ∧ codec.unmarshal p = some ev ∧ required cfg ev ⊆ done

/-- What is in hand after an answer. -/
def taken {P : Type} (hand : Option (Nat × P)) (got : Option (Nat × P)) : Option (Nat × P) :=
  got.or hand

open Classical in
/-- A publication writes and acknowledges nothing; a consumer acknowledges the message in hand when
it is due. -/
noncomputable def careful {sv : Service E R S C B} (v : View codec sv H) :
    Protocol (Call E) (Call.Result R) (Mode codec.Payload) := fun m e =>
  match m, e with
  | .publishing, .client e => if v.acks e = none then some fun _ => .publishing else none
  | .publishing, .write _ => none
  | .publishing, _ => some fun _ => .publishing
  | .consuming cfg hand done, .client e =>
    if ∀ k, v.acks e = some k → Due codec cfg hand done k then
      some fun r => .consuming cfg (taken hand (v.gives e r)) done
    else none
  | .consuming cfg hand done, .write w =>
    some fun (ok : Bool) => .consuming cfg hand (if ok then w :: done else done)
  | .consuming cfg hand done, _ => some fun _ => .consuming cfg hand done

/-! ## Programs of a consumer -/

section

variable {sv : Service E R S C B} (v : View codec sv H)

/-- With `hand` in its hands, the program follows the protocol of a consumer. -/
def Goes {α : Type} (cfg : Config) (hand : Option (Nat × codec.Payload)) (done : List Write)
    (x : Code E R α) : Prop :=
  x.Follows (careful v) (fun m _ => ∃ hand' done', m = .consuming cfg hand' done')
    (.consuming cfg hand done)

/-- Whatever is in its hands. -/
def Consumes {α : Type} (cfg : Config) (x : Code E R α) : Prop :=
  ∀ hand done, Goes v cfg hand done x

/-- What `Consume` is promised of its callback: where it returns `nil`, what the event requires is
done. -/
def Handles (cfg : Config) (handle : Handle E R) : Prop :=
  ∀ ev attempt hand done, (handle ev attempt).Follows (careful v)
    (fun m r => ∃ done', m = .consuming cfg hand done' ∧ (r.1 = true → required cfg ev ⊆ done'))
    (.consuming cfg hand done)

variable {v} {α β : Type} {cfg : Config} {hand : Option (Nat × codec.Payload)} {done : List Write}

theorem Consumes.ret (a : α) : Consumes v cfg (.ret a) := fun hand done => ⟨hand, done, rfl⟩

theorem Goes.bind {x : Code E R α} {f : α → Code E R β} (first : Goes v cfg hand done x)
    (rest : ∀ a, Consumes v cfg (f a)) : Goes v cfg hand done (x >>= f) := by
  refine Prog.Follows.bind first ?_
  rintro m a ⟨hand', done', rfl⟩
  exact rest a hand' done'

theorem Consumes.bind {x : Code E R α} {f : α → Code E R β} (first : Consumes v cfg x)
    (rest : ∀ a, Consumes v cfg (f a)) : Consumes v cfg (x >>= f) :=
  fun hand done => (first hand done).bind rest

/-- `ctx.Err()`, `Sleep`, a draw and `Wait` leave the mode as it is. -/
theorem Consumes.plain {e : Call E} {k : e.Result R → Code E R α}
    (plain : ∀ hand done, careful v (.consuming cfg hand done) e = some fun _ =>
      .consuming cfg hand done)
    (rest : ∀ r, Consumes v cfg (k r)) : Consumes v cfg (.call e k) :=
  fun hand done => ⟨_, plain hand done, fun r => rest r hand done⟩

theorem Consumes.running {k : Bool → Code E R α} (rest : ∀ r, Consumes v cfg (k r)) :
    Consumes v cfg (Broker.running >>= k) :=
  .plain (e := .err) (fun _ _ => rfl) rest

theorem Consumes.sleep {delay : Go.Duration} {k : Unit → Code E R α}
    (rest : ∀ r, Consumes v cfg (k r)) :
    Consumes v cfg (Broker.sleep delay >>= k) :=
  .plain (e := .sleep delay) (fun _ _ => rfl) rest

theorem Consumes.draw {k : Nat → Code E R α} (rest : ∀ r, Consumes v cfg (k r)) :
    Consumes v cfg ((.ask Call.draw : Code E R Nat) >>= k) :=
  .plain (e := .draw) (fun _ _ => rfl) rest

/-- A call that acknowledges only what is due; what it hands out is in hand after it. -/
theorem Goes.client {e : E} {k : R e → Code E R α}
    (due : ∀ n, v.acks e = some n → Due codec cfg hand done n)
    (rest : ∀ r, Goes v cfg (taken hand (v.gives e r)) done (k r)) :
    Goes v cfg hand done (Broker.client e >>= k) :=
  ⟨_, if_pos due, rest⟩

/-- A call that acknowledges nothing. -/
theorem Consumes.client {e : E} {k : R e → Code E R α} (quiet : v.acks e = none)
    (rest : ∀ r, Consumes v cfg (k r)) :
    Consumes v cfg (Broker.client e >>= k) := by
  intro hand done
  refine Goes.client (fun n acked => ?_) fun r => rest r _ _
  rw [quiet] at acked
  cases acked

/-- After the callback: where it failed, and where the message in hand is due. -/
theorem Handles.bind {handle : Handle E R} (h : Handles v cfg handle) {ev : MessageCreated}
    {attempt : Nat} {f : Bool × Nat → Code E R α}
    (no : ∀ attempt, Consumes v cfg (f (false, attempt)))
    (yes : ∀ attempt done, required cfg ev ⊆ done → Goes v cfg hand done (f (true, attempt))) :
    Goes v cfg hand done (handle ev attempt >>= f) := by
  refine (h ev attempt hand done).bind ?_
  rintro m ⟨ok, attempt⟩ ⟨done', rfl, finished⟩
  cases ok with
  | false => exact no attempt hand done'
  | true => exact yes attempt done' (finished rfl)

/-! ## Programs that acknowledge nothing -/

variable (v)

/-- Neither a write nor an acknowledgement. -/
def Silent : Call E → Prop
  | .client e => v.acks e = none
  | .write _ => False
  | _ => True

variable {v}

theorem silent_client {e : E} {k : R e → Code E R α} (quiet : v.acks e = none)
    (rest : ∀ r, (k r).All (Silent v)) :
    (Broker.client e >>= k).All (Silent v) :=
  ⟨quiet, rest⟩

theorem consumes_of_silent {x : Code E R α} (h : x.All (Silent v)) : Consumes v cfg x := by
  induction x with
  | ret a => exact .ret a
  | call e k ih =>
    have rest := fun r => ih r (h.2 r)
    cases e with
    | client e => exact .client h.1 rest
    | write x => exact h.1.elim
    | err | sleep | draw | wait => exact .plain (fun _ _ => rfl) rest

theorem publishing_of_silent {x : Code E R α} (h : x.All (Silent v)) :
    x.Follows (careful v) (fun m _ => m = .publishing) .publishing := by
  induction x with
  | ret a => rfl
  | call e k ih =>
    have rest := fun r => ih r (h.2 r)
    cases e with
    | client e => exact ⟨_, if_pos h.1, rest⟩
    | write x => exact h.1.elim
    | err | sleep | draw | wait => exact ⟨_, rfl, rest⟩

/-! ## The callback -/

private theorem handleIndex_handles (ev : MessageCreated) {done : List Write}
    (saved : cfg.events = true → .batch ev cfg.broker ∈ done) :
    ((Projection.handleIndex cfg ev).lift Call.write (fun _ r => r) :
      Code E R Bool).Follows (careful v)
      (fun m ok => ∃ done', m = .consuming cfg hand done' ∧ (ok = true → required cfg ev ⊆ done'))
      (.consuming cfg hand done) := by
  have finished : ∀ done, (cfg.events = true → .batch ev cfg.broker ∈ done) →
      (cfg.index = true → .document (Projection.document ev cfg.broker) ∈ done) →
      required cfg ev ⊆ done := by
    intro done batch doc x mem
    rcases List.mem_append.mp mem with first | second
    · split at first
      · next on =>
        rw [List.mem_singleton.mp first]
        exact batch on
      · cases first
    · split at second
      · next on =>
        rw [List.mem_singleton.mp second]
        exact doc on
      · cases second
  rw [Projection.handleIndex]
  split
  · refine ⟨_, rfl, fun (ok : Bool) => ?_⟩
    cases ok with
    | false => exact ⟨done, rfl, Bool.noConfusion⟩
    | true =>
      refine ⟨_, rfl, fun _ => finished _ (fun on => ?_) fun _ => List.mem_cons_self⟩
      exact List.mem_cons_of_mem _ (saved on)
  · next off => exact ⟨done, rfl, fun _ => finished done saved fun on => absurd on off⟩

theorem counting_handles (cfg : Config) : Handles v cfg (counting cfg) := by
  intro ev attempt hand done
  have handled : ((Projection.handle cfg ev).lift Call.write (fun _ r => r) :
      Code E R Bool).Follows (careful v)
        (fun m ok => ∃ done', m = .consuming cfg hand done' ∧ (ok = true → required cfg ev ⊆ done'))
        (.consuming cfg hand done) := by
    rw [Projection.handle]
    split
    · refine ⟨_, rfl, fun (ok : Bool) => ?_⟩
      cases ok with
      | false => exact ⟨done, rfl, Bool.noConfusion⟩
      | true => exact handleIndex_handles ev fun _ => List.mem_cons_self
    · next off => exact handleIndex_handles ev fun on => absurd on off
  refine handled.bind ?_
  rintro m ok ⟨done', rfl, finished⟩
  exact ⟨done', rfl, finished⟩

end

/-! ## The supervisor -/

section

variable {P : Call E → Prop} {b : Client E R} {cfg : Config}

private theorem all_ask {α : Type} {e : Call E} {k : e.Result R → Code E R α} (meets : P e)
    (rest : ∀ r, (k r).All P) :
    (Prog.ask e >>= k : Code E R α).All P :=
  ⟨meets, rest⟩

theorem counting_all (writes : ∀ x, P (.write x)) (ev : MessageCreated) (attempt : Nat) :
    (counting cfg ev attempt : Code E R (Bool × Nat)).All P :=
  Prog.all_bind (Prog.all_lift (Prog.all_of_forall writes _)) fun _ => trivial

/-- What the calls of a consumer meet, those of its supervisor meet. -/
theorem supervise_all (plain : P .err ∧ P .draw ∧ ∀ delay, P (.wait delay))
    (newConsumer : b.newConsumer.All P)
    (consume : ∀ turns c attempt, (b.consume turns (counting cfg) c attempt).All P)
    (close : ∀ c, (b.close c).All P) (turns attempt : Nat) :
    (supervise b cfg turns attempt).All P := by
  have one : ∀ turns attempt, (session b cfg turns attempt).All P := by
    intro turns attempt
    refine Prog.all_bind newConsumer fun c => ?_
    cases c with
    | none => trivial
    | some c =>
      refine Prog.all_bind (consume turns c attempt) fun left => ?_
      cases left with
      | none => trivial
      | some left => exact Prog.all_bind (close left.1) fun _ => trivial
  have pauses : ∀ attempt source, (pause attempt source : Code E R Bool).All P := by
    intro attempt source
    rw [pause]
    split
    · trivial
    · exact ⟨plain.2.2 _, fun _ => trivial⟩
  induction turns generalizing attempt with
  | zero => trivial
  | succ turns ih =>
    refine all_ask plain.1 fun (on : Bool) => ?_
    cases on with
    | false => trivial
    | true =>
      refine Prog.all_bind (one turns attempt) fun left => ?_
      cases left with
      | none => trivial
      | some attempt =>
        refine all_ask plain.1 fun (on : Bool) => ?_
        cases on with
        | false => trivial
        | true =>
          refine all_ask plain.2.1 fun (source : Nat) => ?_
          refine Prog.all_bind (pauses (attempt + 1) source) fun on => ?_
          cases on with
          | false => trivial
          | true => exact ih (attempt + 1)

end

/-- A client that acknowledges only what is due. -/
structure Careful {sv : Service E R S C B} (v : View codec sv H) (b : Client E R) : Prop where
  publish : ∀ p ev, (b.publish p ev).Follows (careful v) (fun m _ => m = .publishing) .publishing
  newConsumer : ∀ cfg, Consumes v cfg b.newConsumer
  consume : ∀ cfg handle, Handles v cfg handle → ∀ turns c attempt,
    Consumes v cfg (b.consume turns handle c attempt)
  close : ∀ cfg c, Consumes v cfg (b.close c)

variable {sv : Service E R S C B} {v : View codec sv H} {b : Client E R}

theorem Careful.session (h : Careful v b) (cfg : Config) (turns attempt : Nat) :
    Consumes v cfg (session b cfg turns attempt) := by
  refine (h.newConsumer cfg).bind fun c => ?_
  cases c with
  | none => exact .ret _
  | some c =>
    refine (h.consume cfg _ (counting_handles cfg) turns c attempt).bind fun left => ?_
    cases left with
    | none => exact .ret _
    | some left => exact (h.close cfg left.1).bind fun _ => .ret _

theorem pause_consumes (cfg : Config) (attempt source : Nat) :
    Consumes v cfg (pause attempt source) := by
  rw [pause]
  split
  · exact .ret _
  · exact .plain (fun _ _ => rfl) fun _ => .ret _

theorem Careful.supervise (h : Careful v b) (cfg : Config) (turns attempt : Nat) :
    Consumes v cfg (supervise b cfg turns attempt) := by
  induction turns generalizing attempt with
  | zero => exact .ret _
  | succ turns ih =>
    rw [Broker.supervise]
    refine .running fun on => ?_
    cases on with
    | false => exact .ret _
    | true =>
      refine (h.session cfg turns attempt).bind fun left => ?_
      cases left with
      | none => exact .ret _
      | some attempt =>
        refine .running fun on => ?_
        cases on with
        | false => exact .ret _
        | true =>
          refine .draw fun source => (pause_consumes cfg (attempt + 1) source).bind fun on => ?_
          cases on with
          | false => exact .ret _
          | true => exact ih (attempt + 1)

end OtusApp.Broker
