import OtusApp.Lib.Protocol
import OtusApp.Laws.Resilience.Retry
import OtusApp.Outbox.Run

/-!
# What a worker does with its publishers and deliveries

The loop of a worker follows a protocol of two parts (`discipline`): the publisher that is open, and
the delivery in hand with what has become of its publication. A call is admitted where it is in
order: the factory is asked where no publisher is open, a publisher is used and closed while it is
the open one, and a delivery is completed after the publication that returned `nil`, and released
otherwise.

Every admitted call keeps the books balanced: what the factory has given is what was closed and what
is open (`Admitted.publishers`), and what was done with the deliveries is the full course of some of
them and the beginning of one more (`Admitted.deliveries`). So they are balanced at any time of any
run, and nothing is left open or in hand where `run` returns.
-/

namespace OtusApp.Outbox.Run

open Messaging Go Resilience Program

/-! ## The books -/

/-- The publisher a call of the factory gave. -/
def gift : (e : Call) × e.Result → Option Nat
  | ⟨.factory _, answer⟩ => answer.1
  | _ => none

/-- The publisher a call closed. -/
def closing : (e : Call) × e.Result → Option Nat
  | ⟨.close p, _⟩ => some p
  | _ => none

/-- The publishers the factory gave, in order. -/
def given (trace : Trace) : List Nat := trace.filterMap gift

/-- The publishers that were closed, in order. -/
def closed (trace : Trace) : List Nat := trace.filterMap closing

/-- What is done with a delivery. -/
inductive Deal
  | claimed (d : Delivery)
  | published (event : MessageCreated) (ok : Bool)
  | retried (d : Delivery)
  | completed (d : Delivery)
deriving DecidableEq

def deal : (e : Call) × e.Result → Option Deal
  | ⟨.claim _ _, (some d, true)⟩ => some (.claimed d)
  | ⟨.publish _ event, ok⟩ => some (.published event ok)
  | ⟨.retry d _, _⟩ => some (.retried d)
  | ⟨.complete d, _⟩ => some (.completed d)
  | _ => none

/-- What was done with the deliveries, in order. -/
def deals (trace : Trace) : List Deal := trace.filterMap deal

/-- What can become of a delivery: there was no publisher for it, its publication failed, or it was
published. -/
inductive Ending
  | unpublished
  | refused
  | delivered
deriving DecidableEq

/-- The full course of a delivery. -/
def course : Delivery × Ending → List Deal
  | (d, .unpublished) => [.claimed d, .retried d]
  | (d, .refused) => [.claimed d, .published d.event false, .retried d]
  | (d, .delivered) => [.claimed d, .published d.event true, .completed d]

/-! ## The protocol -/

/-- The delivery in hand. -/
inductive Hand
  | empty
  | claimed (d : Delivery)
  | published (d : Delivery) (ok : Bool)
deriving DecidableEq

/-- The open publisher and the delivery in hand. -/
structure Mode where
  publisher : Option Nat
  hand : Hand

/-- What is in hand after `Claim`. -/
def taken : Option Delivery × Bool → Hand
  | (some d, true) => .claimed d
  | _ => .empty

/-- Where each call is in order, and what it changes. -/
def discipline : Protocol Call Call.Result Mode := fun m e =>
  match e with
  | .claim _ _ =>
    if m.hand = .empty then some fun answer => { m with hand := taken answer } else none
  | .factory _ =>
    if m.publisher = none then some fun answer => { m with publisher := answer.1 } else none
  | .publish p event =>
    match m.hand with
    | .claimed d =>
      if m.publisher = some p ∧ event = d.event then some fun ok =>
        { m with hand := .published d ok } else none
    | _ => none
  | .close p => if m.publisher = some p then some fun _ => { m with publisher := none } else none
  | .retry d _ =>
    if m.hand = .claimed d ∨ m.hand = .published d false then some fun _ =>
      { m with hand := .empty } else none
  | .complete d =>
    if m.hand = .published d true then some fun _ => { m with hand := .empty } else none
  | .err | .now | .outboxStats _ | .draw | .wait _ => some fun _ => m

/-- What has been done with the delivery in hand. -/
def Hand.deals : Hand → List Deal
  | .empty => []
  | .claimed d => [.claimed d]
  | .published d ok => [.claimed d, .published d.event ok]

/-- What an admitted call can be. -/
inductive Admitted : Mode → (e : Call) → (e.Result → Mode) → Prop
  | claim (publisher : Option Nat) (target : String) (lease : Duration) :
    Admitted ⟨publisher, .empty⟩ (.claim target lease) fun answer => ⟨publisher, taken answer⟩
  | factory (hand : Hand) (target : String) :
    Admitted ⟨none, hand⟩ (.factory target) fun answer => ⟨answer.1, hand⟩
  | publish (p : Nat) (d : Delivery) :
    Admitted ⟨some p, .claimed d⟩ (.publish p d.event) fun ok => ⟨some p, .published d ok⟩
  | close (p : Nat) (hand : Hand) : Admitted ⟨some p, hand⟩ (.close p) fun _ => ⟨none, hand⟩
  | unpublished (publisher : Option Nat) (d : Delivery) (delay : Duration) :
    Admitted ⟨publisher, .claimed d⟩ (.retry d delay) fun _ => ⟨publisher, .empty⟩
  | refused (publisher : Option Nat) (d : Delivery) (delay : Duration) :
    Admitted ⟨publisher, .published d false⟩ (.retry d delay) fun _ => ⟨publisher, .empty⟩
  | delivered (publisher : Option Nat) (d : Delivery) :
    Admitted ⟨publisher, .published d true⟩ (.complete d) fun _ => ⟨publisher, .empty⟩
  | other {m : Mode} {e : Call} (gives : ∀ r, gift ⟨e, r⟩ = none)
      (closes : ∀ r, closing ⟨e, r⟩ = none)
    (deals : ∀ r, deal ⟨e, r⟩ = none) : Admitted m e fun _ => m

theorem admitted {m : Mode} {e : Call} {onward : e.Result → Mode}
    (h : discipline m e = some onward) :
    Admitted m e onward := by
  obtain ⟨publisher, hand⟩ := m
  cases e with
  | claim target lease =>
    obtain ⟨same, h⟩ := Option.ite_none_right_eq_some.mp h
    cases same
    cases h
    exact .claim publisher target lease
  | factory target =>
    obtain ⟨same, h⟩ := Option.ite_none_right_eq_some.mp h
    cases same
    cases h
    exact .factory hand target
  | publish p event =>
    cases hand with
    | claimed d =>
      obtain ⟨⟨same, same'⟩, h⟩ := Option.ite_none_right_eq_some.mp h
      cases same
      cases same'
      cases h
      exact .publish p d
    | empty => cases h
    | published d ok => cases h
  | close p =>
    obtain ⟨same, h⟩ := Option.ite_none_right_eq_some.mp h
    cases same
    cases h
    exact .close p hand
  | retry d delay =>
    obtain ⟨same, h⟩ := Option.ite_none_right_eq_some.mp h
    cases h
    rcases same with same | same
    · cases same
      exact .unpublished publisher d delay
    · cases same
      exact .refused publisher d delay
  | complete d =>
    obtain ⟨same, h⟩ := Option.ite_none_right_eq_some.mp h
    cases same
    cases h
    exact .delivered publisher d
  | err | now | outboxStats | draw | wait =>
    cases h
    exact .other (fun _ => rfl) (fun _ => rfl) (fun _ => rfl)

section Books

variable {m : Mode} {e : Call} {onward : e.Result → Mode}

/-- What was open and what is given is what is closed and what is open then. -/
theorem Admitted.publishers (h : Admitted m e onward) (r : e.Result) :
    m.publisher.toList ++ (gift ⟨e, r⟩).toList = (closing ⟨e, r⟩).toList ++
      (onward r).publisher.toList := by
  cases h with
  | other gives closes _ =>
    rw [gives, closes]
    exact List.append_nil _
  | factory | close => rfl
  | claim | publish | unpublished | refused | delivered => exact List.append_nil _

/-- What was done with the delivery in hand, and is done now, is its full course or the beginning of
one. -/
theorem Admitted.deliveries (h : Admitted m e onward) (r : e.Result) :
    ∃ finished : Option (Delivery × Ending),
      m.hand.deals ++ (deal ⟨e, r⟩).toList = finished.toList.flatMap course ++
        (onward r).hand.deals := by
  cases h with
  | claim publisher target lease =>
    obtain ⟨d, ok⟩ := r
    cases d <;> cases ok <;> exact ⟨none, rfl⟩
  | publish p d => exact ⟨none, rfl⟩
  | unpublished publisher d delay => exact ⟨some (d, .unpublished), rfl⟩
  | refused publisher d delay => exact ⟨some (d, .refused), rfl⟩
  | delivered publisher d => exact ⟨some (d, .delivered), rfl⟩
  | factory | close => exact ⟨none, List.append_nil _⟩
  | other _ _ deals =>
    rw [deals]
    exact ⟨none, List.append_nil _⟩

/-- `Publish` is admitted on the open publisher. -/
theorem Admitted.opened {p : Nat} {event : MessageCreated} {onward : Bool → Mode}
    (h : Admitted m (.publish p event) onward) : m.publisher = some p := by
  cases h with
  | publish => rfl
  | other _ _ deals => cases deals true

end Books

/-- The books are balanced. -/
structure Balanced (trace : Trace) (m : Mode) : Prop where
  publishers : given trace = closed trace ++ m.publisher.toList
  published : ∀ before p event (ok : Bool) after, trace = before ++
    ⟨.publish p event, ok⟩ :: after →
    given before = closed before ++ [p]
  deliveries : ∃ finished : List (Delivery × Ending),
    deals trace = finished.flatMap course ++ m.hand.deals

theorem balanced_nil : Balanced [] ⟨none, .empty⟩ := by
  refine ⟨rfl, fun before p event ok after h => ?_, [], rfl⟩
  exact absurd h.symm (List.append_ne_nil_of_right_ne_nil before (List.cons_ne_nil _ after))

/-- An admitted call keeps them so, whatever it returns. -/
theorem Balanced.step {trace : Trace} {m : Mode} (h : Balanced trace m) {e : Call}
    {onward : e.Result → Mode} (call : Admitted m e onward) (r : e.Result) :
    Balanced (trace ++ [⟨e, r⟩]) (onward r) where
  publishers := by
    rw [given, closed, Rows.filterMap_concat, Rows.filterMap_concat,
      List.append_assoc, ← call.publishers r,
      ← List.append_assoc]
    exact congrArg (· ++ _) h.publishers
  published := by
    intro before p event ok after split
    rcases Rows.concat_split split with ⟨rest, earlier⟩ | ⟨rfl, now⟩
    · exact h.published before p event ok rest earlier
    · cases now
      rw [h.publishers, call.opened]
      rfl
  deliveries := by
    obtain ⟨past, same⟩ := h.deliveries
    obtain ⟨now, more⟩ := call.deliveries r
    refine ⟨past ++ now.toList, ?_⟩
    rw [deals, Rows.filterMap_concat, List.flatMap_append,
      List.append_assoc, ← more, ← List.append_assoc]
    exact congrArg (· ++ _) same

/-! ## The loop follows it -/

/-- The variables an iteration ends with. -/
def Turn.vars : Turn → Vars
  | .continue_ v => v
  | .return_ v => v

/-- Between two iterations: the open publisher is the variable, and nothing is in hand. -/
def Between (m : Mode) (v : Vars) : Prop := m = ⟨v.publisher, .empty⟩

/-- The program makes an iteration's calls in order. -/
abbrev Orderly (x : Code Turn) (m : Mode) : Prop :=
  x.Follows discipline (fun m t => Between m t.vars) m

theorem close_orderly (publisher : Option Nat) (hand : Hand) :
    (close publisher).Follows discipline (fun m _ => m = ⟨none, hand⟩) ⟨publisher, hand⟩ := by
  cases publisher with
  | none => exact rfl
  | some p => exact ⟨_, if_pos rfl, fun _ => rfl⟩

theorem pause_orderly (v : Vars) (delay : Duration) :
    Orderly (pause v delay) ⟨v.publisher, .empty⟩ := by
  refine ⟨_, rfl, fun ok => ?_⟩
  cases ok with
  | true => exact rfl
  | false => exact rfl

/-- `Backoff` always gives a delay. -/
theorem delayed_orderly (v : Vars) (attempt : Int) {rest : Duration → Code Turn} {m : Mode}
    (h : ∀ delay, Orderly (rest delay) m) : Orderly (delayed v attempt rest) m := by
  refine ⟨_, rfl, fun source => ?_⟩
  obtain ⟨delay, drawn, _, _⟩ := backoff_between attempt source
  simp only [Prog.bind, drawn]
  exact h delay

theorem retry_orderly (v : Vars) (d : Delivery) (delay : Duration) {hand : Hand}
    (due : hand = .claimed d ∨ hand = .published d false) :
    Orderly (retry v d delay) ⟨v.publisher, hand⟩ :=
  ⟨_, if_pos due, fun _ => pause_orderly { v with attempt := v.attempt + 1 } delay⟩

theorem fail_orderly (v : Vars) (d : Delivery) {hand : Hand}
    (due : hand = .claimed d ∨ hand = .published d false) :
    Orderly (fail v d) ⟨v.publisher, hand⟩ := by
  refine (close_orderly v.publisher hand).bind fun m _ shut => ?_
  rw [shut]
  exact delayed_orderly _ _ fun delay => retry_orderly { v with publisher := none } d delay due

theorem complete_orderly (v : Vars) (d : Delivery) :
    Orderly (complete v d) ⟨v.publisher, .published d true⟩ :=
  ⟨_, if_pos rfl, fun _ => rfl⟩

theorem publish_orderly {v : Vars} {p : Nat} (opened : v.publisher = some p) (d : Delivery) :
    Orderly (publish v p d) ⟨v.publisher, .claimed d⟩ := by
  refine ⟨_, if_pos ⟨opened, rfl⟩, fun ok => ?_⟩
  cases ok with
  | true => exact complete_orderly v d
  | false => exact fail_orderly v d (.inr rfl)

/-- The factory may give a publisher with an error: it is closed like one that failed. -/
theorem connect_orderly (target : String) {v : Vars} (none : v.publisher = none) (d : Delivery) :
    Orderly (connect target v d) ⟨v.publisher, .claimed d⟩ := by
  refine ⟨_, if_pos none, fun answer => ?_⟩
  obtain ⟨publisher, ok⟩ := answer
  cases publisher with
  | none => exact fail_orderly { v with publisher := .none } d (.inl rfl)
  | some p =>
    cases ok with
    | true => exact publish_orderly (v := { v with publisher := some p }) rfl d
    | false => exact fail_orderly { v with publisher := some p } d (.inl rfl)

theorem deliver_orderly (target : String) (v : Vars) (d : Delivery) :
    Orderly (deliver target v d) ⟨v.publisher, .claimed d⟩ := by
  unfold deliver
  split
  case h_1 none => exact connect_orderly target none d
  case h_2 p opened => exact publish_orderly opened d

theorem claim_orderly (target : String) (v : Vars) :
    Orderly (claim target v) ⟨v.publisher, .empty⟩ := by
  refine ⟨fun answer => ⟨v.publisher, taken answer⟩, rfl, fun answer => ?_⟩
  obtain ⟨d, ok⟩ := answer
  cases ok with
  | false =>
    have nothing : taken (d, false) = .empty := by cases d <;> rfl
    show Orderly _ ⟨v.publisher, taken (d, false)⟩
    rw [nothing]
    exact delayed_orderly _ _ fun delay =>
      pause_orderly { v with claimAttempt := v.claimAttempt + 1 } delay
  | true =>
    cases d with
    | none => exact pause_orderly { v with claimAttempt := 0 } _
    | some d => exact deliver_orderly target { v with claimAttempt := 0 } d

theorem turn_orderly (target : String) (v : Vars) :
    Orderly (turn target v) ⟨v.publisher, .empty⟩ := by
  refine ⟨_, rfl, fun (now : Time) => ?_⟩
  show Orderly (if v.nextStats.all (· < now) then stats target v else claim target v) _
  by_cases due : v.nextStats.all (· < now)
  · rw [if_pos due]
    exact ⟨_, rfl, fun _ =>
      ⟨_, rfl, fun (later : Time) =>
        claim_orderly target { v with nextStats := some (later + 1000000) }⟩⟩
  · rw [if_neg due]
    exact claim_orderly target v

/-- Where the loop is over, the publisher is the only thing left to close. -/
theorem iterate_orderly (target : String) (turns : Nat) (v : Vars) :
    (iterate target turns v).Follows discipline (fun m finished => ∀ v ∈ finished, Between m v)
      ⟨v.publisher, .empty⟩ := by
  induction turns generalizing v with
  | zero => exact nofun
  | succ turns ih =>
    refine ⟨_, rfl, fun ok => ?_⟩
    cases ok with
    | false =>
      rintro _ ⟨⟩
      exact rfl
    | true =>
      refine (turn_orderly target v).bind fun m t between => ?_
      cases t with
      | continue_ v =>
        rw [between]
        exact ih v
      | return_ v =>
        rintro _ ⟨⟩
        exact between

/-- `run` makes its calls in order, and returns with nothing open and nothing in hand. -/
theorem run_orderly (target : String) (turns : Nat) :
    (run target turns).Follows discipline (fun m returned => returned = true → m = ⟨none, .empty⟩)
      ⟨none, .empty⟩ := by
  refine (iterate_orderly target turns _).bind fun m finished between => ?_
  cases finished with
  | none => exact nofun
  | some v =>
    rw [between v rfl]
    exact (close_orderly v.publisher .empty).bind fun m _ none _ => none

/-! ## Every run -/

/-- At any time of a run the books are balanced, and what is left of it is in order. -/
theorem run_balanced {target : String} {turns : Nat} {outcomes : List Outcomes} {rest : Code Bool}
    {trace : Trace} (runs : (run target turns).after record [] outcomes = some (rest, trace)) :
    ∃ m, Balanced trace m ∧
      rest.Follows discipline (fun m returned => returned = true → m = ⟨none, .empty⟩) m := by
  refine (run_orderly target turns).after
    (fun trace m e onward o r trace' balanced call answer => ?_) balanced_nil runs
  cases answer
  exact balanced.step (admitted call) (o.answer e)

/-- What has been done with the delivery in hand is the beginning of a course. -/
theorem Hand.deals_beginning (hand : Hand) :
    ∃ next : Option (Delivery × Ending), hand.deals <+: next.toList.flatMap course := by
  cases hand with
  | empty => exact ⟨none, List.prefix_refl []⟩
  | claimed d => exact ⟨some (d, .unpublished), [.retried d], rfl⟩
  | published d ok =>
    cases ok with
    | true => exact ⟨some (d, .delivered), [.completed d], rfl⟩
    | false => exact ⟨some (d, .refused), [.retried d], rfl⟩

theorem not_mem_closed {p : Nat} {trace : Trace} (h : given trace = closed trace ++ [p])
    (distinct : (given trace).Nodup) :
    p ∉ closed trace := by
  rw [h] at distinct
  intro mem
  exact (List.nodup_append.mp distinct).2.2 p mem p (List.mem_singleton_self p) rfl

/-- **The discipline of a worker.** However its calls end and whenever its context is cancelled, at
any time of `run`: all publishers the factory gave are closed but one at most, in order; `Publish`
was called on the one that was open, which is not closed before; what was done with the deliveries
is a full course for each, of the last one the beginning at least. Where it has returned, every
publisher is closed, once if it was given once, and every delivery has had its full course. -/
theorem run_disciplined {target : String} {turns : Nat} {outcomes : List Outcomes}
    {rest : Code Bool} {trace : Trace}
    (runs : (run target turns).after record [] outcomes = some (rest, trace)) :
    (∃ opened : Option Nat, given trace = closed trace ++ opened.toList) ∧
    (∀ before p event (ok : Bool) after, trace = before ++ ⟨.publish p event, ok⟩ :: after →
      given before = closed before ++ [p] ∧ ((given before).Nodup → p ∉ closed before)) ∧
    (rest = .ret true → closed trace = given trace ∧
      ((given trace).Nodup → ∀ p ∈ given trace, (closed trace).count p = 1)) ∧
    ∃ handled : List (Delivery × Ending), deals trace <+: handled.flatMap course ∧
      (rest = .ret true → deals trace = handled.flatMap course) := by
  obtain ⟨m, balanced, orderly⟩ := run_balanced runs
  obtain ⟨past, done⟩ := balanced.deliveries
  refine ⟨⟨m.publisher, balanced.publishers⟩, fun before p event ok after split => ?_,
    fun returned => ?_, ?_⟩
  · have opened := balanced.published before p event ok after split
    exact ⟨opened, not_mem_closed opened⟩
  · subst returned
    have same : closed trace = given trace := by
      rw [balanced.publishers, orderly rfl]
      exact (List.append_nil _).symm
    refine ⟨same, fun distinct p mem => ?_⟩
    rw [same]
    exact List.count_eq_one_of_mem distinct mem
  · by_cases returned : rest = .ret true
    · subst returned
      have all : deals trace = past.flatMap course := by
        rw [done, orderly rfl]
        exact List.append_nil _
      exact ⟨past, all ▸ List.prefix_refl _, fun _ => all⟩
    · obtain ⟨next, beginning⟩ := m.hand.deals_beginning
      refine ⟨past ++ next.toList, ?_, fun h => absurd h returned⟩
      rw [done, List.flatMap_append]
      exact (List.prefix_append_right_inj _).mpr beginning

/-- The first publisher comes with an error, the second delivers; then the context is cancelled. -/
def reconnection : List Outcomes :=
  let d : Delivery := ⟨1, "nats", "t1", 1, ⟨1, "text", "", 0, "otus-app"⟩⟩
  let fails : Outcomes :=
    ⟨true, 0, true, (some d, true), (some 0, false), false, true, true, 0, true⟩
  let works : Outcomes := { fails with factory := (some 1, true), publish := true }
  List.replicate 10 fails ++ List.replicate 6 works ++ List.replicate 2 { works with err := false }

theorem run_disciplined_reconnection :
    ∃ trace, (run "nats" 3).after record [] reconnection = some (.ret true, trace) ∧
    given trace = [0, 1] ∧ closed trace = given trace := by
  have returns : ∃ trace, (run "nats" 3).after record [] reconnection = some (.ret true, trace) ∧
      given trace = [0, 1] := ⟨_, rfl, rfl⟩
  obtain ⟨trace, runs, both⟩ := returns
  exact ⟨trace, runs, both, ((run_disciplined runs).2.2.1 rfl).1⟩

/-! ## The bound on the iterations -/

/-- Every call counts. -/
def counted : Protocol Call Call.Result Nat := fun n _ => some fun _ => n + 1

theorem counted_le {α : Type} (x : Code α) (n : Nat) :
    x.Follows counted (fun n' _ => n ≤ n') n := by
  induction x generalizing n with
  | ret a => exact Nat.le_refl n
  | call e k ih => exact ⟨_, rfl, fun r => (ih r (n + 1)).mono fun _ _ h => Nat.le_of_succ_le h⟩

/-- Each iteration makes a call. -/
theorem iterate_counted (target : String) (turns : Nat) (v : Vars) (n : Nat) :
    (iterate target turns v).Follows counted (fun n' finished => finished = none →
      n + turns ≤ n') n := by
  induction turns generalizing v n with
  | zero => exact fun _ => Nat.le_refl n
  | succ turns ih =>
    refine ⟨_, rfl, fun ok => ?_⟩
    cases ok with
    | false => exact nofun
    | true =>
      refine (counted_le (turn target v) (n + 1)).bind fun n' t more => ?_
      cases t with
      | continue_ v =>
        refine (ih v n').mono fun n'' finished h none => ?_
        have enough := h none
        omega
      | return_ v => exact nofun

/-- Where a run has made fewer calls than the iterations it is given, it goes on as the loop without
a bound. -/
theorem run_goes_on {target : String} {turns : Nat} {outcomes : List Outcomes} {rest : Code Bool}
    {trace : Trace} (runs : (run target turns).after record [] outcomes = some (rest, trace))
    (few : trace.length < turns) :
    rest ≠ .ret false := by
  have follows : (run target turns).Follows counted (fun n returned => returned = false →
      turns ≤ n) 0 := by
    refine (iterate_counted target turns _ 0).bind fun n finished h => ?_
    cases finished with
    | none => exact fun _ => (Nat.zero_add turns).symm.le.trans (h rfl)
    | some v => exact (counted_le (close v.publisher) n).bind fun _ _ _ => nofun
  have counts :=
    follows.after (J := fun trace n => trace.length = n)
      (fun trace n e onward o r trace' same call answer => by
    cases answer
    cases call
    rw [List.length_append, same]
    rfl) rfl runs
  obtain ⟨n, rfl, post⟩ := counts
  rintro rfl
  exact Nat.not_le.mpr few (post rfl)

end OtusApp.Outbox.Run
