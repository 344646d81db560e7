import OtusApp.Outbox.Replicas
import OtusApp.Laws.Storage.Delivered

/-!
# No event is lost by the outbox

The mark on a row, the lease's token and the publication live in three places and change in separate
steps of many workers. What ties them together is a fact about every delivery in a worker's hands
(`Carries`): it is a row of its target, with that row's event. So a worker that is about to complete
a delivery has published the row's event, also when its lease is long gone, and a `Complete` that
lands late finds the publication in the past.

The premise on the broker is in the step: `Publish` returns `nil` only when the broker acknowledged,
and `published` lists those returns.
-/

namespace OtusApp.Outbox

open Messaging Go Storage Transition

variable {codec : EventCodec}

/-! ## One reply -/

/-- What a worker can do with a reply: it keeps its target, works on the delivery it had or was just
given, and completes a delivery only when its publication returned `nil`. -/
structure Worker.Resumes (w : Worker) (reply : Reply) (w' : Worker) : Prop where
  target : w'.target = w.target
  delivery : ∀ d, w'.stage.delivery = some d →
    w.stage.delivery = some d ∨ ∃ source, reply = .claimed (.ok (some d)) source
  completing : ∀ d, w'.stage = .completing d →
    w.stage = .publishing d ∧ ∃ source, reply = .published true source

/-- A worker left without a delivery. -/
theorem Worker.Resumes.idle {w w' : Worker} {reply : Reply} (target : w'.target = w.target)
    (idle : w'.stage.delivery = none) : w.Resumes reply w' := by
  refine ⟨target, fun d hd => ?_, fun d hd => ?_⟩
  · exact absurd (idle.symm.trans hd) nofun
  · rw [hd] at idle
    cases idle

theorem Worker.pause_resumes (w w' : Worker) (reply : Reply) (delay : Option Duration)
    (target : w'.target = w.target) : w.Resumes reply (w'.pause delay) := by
  cases delay with
  | none => exact .idle target rfl
  | some delay => exact .idle target rfl

/-- A failed publication keeps the delivery for its release. -/
theorem Worker.fail_resumes {w w' : Worker} {reply : Reply} {d : Delivery} (source : Nat)
    (target : w'.target = w.target) (held : w.stage.delivery = some d) :
    w.Resumes reply (w'.fail d source) := by
  unfold Worker.fail
  split
  · exact .idle target rfl
  · exact ⟨target, fun d' hd' => .inl (hd' ▸ held), nofun⟩

theorem Worker.resume_resumes {w w' : Worker} {reply : Reply} (h : w.resume reply = some w') :
    w.Resumes reply w' := by
  unfold Worker.resume at h
  split at h
  · split at h
    · cases h
      exact .idle rfl rfl
    · split at h
      · cases h
        exact .idle rfl rfl
      · cases h
        exact .idle rfl rfl
  · cases h
    exact .idle rfl rfl
  · cases h
    exact w.pause_resumes _ _ _ rfl
  · cases h
    exact .idle rfl rfl
  · next d source hs =>
    cases h
    refine ⟨rfl, fun d' hd' => .inr ⟨source, ?_⟩, fun d' hd' => ?_⟩
    · have same : some d = some d' := by
        rw [← hd']
        show _ = Stage.delivery (if _ then _ else _)
        split <;> rfl
      rw [Option.some.inj same]
    · exfalso
      simp only at hd'
      split at hd' <;> cases hd'
  · next d publisher ok source hs =>
    have held : w.stage.delivery = some d := by rw [hs]; rfl
    simp only at h
    split at h
    · cases h
      exact ⟨rfl, fun d' hd' => .inl (held.trans hd'), nofun⟩
    · cases h
      exact Worker.fail_resumes source rfl held
  · next d ok source hs =>
    have held : w.stage.delivery = some d := by rw [hs]; rfl
    split at h
    · next acknowledged =>
      cases h
      refine ⟨rfl, fun d' hd' => .inl (held.trans hd'), fun d' hd' => ?_⟩
      cases hd'
      exact ⟨hs, source, by rw [acknowledged]⟩
    · cases h
      exact Worker.fail_resumes source rfl held
  · cases h
    exact .idle rfl rfl
  · cases h
    exact .idle rfl rfl
  · split at h
    · cases h
      exact .idle rfl rfl
    · cases h
      exact .idle rfl rfl
  · cases h

/-! ## The invariant -/

/-- The delivery is a row for `target`, with that row's event. -/
def Carries (outbox : List (OutboxRow codec.Payload)) (target : String) (d : Delivery) : Prop :=
  d.target = target ∧
    ∃ o ∈ outbox, o.key = (d.messageId, d.target) ∧ codec.unmarshal o.payload = some d.event

/-- What ties the rows, the workers and the publications together. -/
structure Honest (s : Replicas codec) : Prop where
  working : ∀ w ∈ s.workers, ∀ d, w.stage.delivery = some d →
    Carries s.db.tables.outbox w.target d
  completing : ∀ w ∈ s.workers, ∀ d, w.stage = .completing d → (w.target, d.event) ∈ s.published
  late : ∀ d answer, Event.complete d answer ∈ s.late →
    Carries s.db.tables.outbox d.target d ∧ (d.target, d.event) ∈ s.published
  rows : ∀ o ∈ s.db.tables.outbox, o.deliveredAt ≠ none →
    ∃ ev, codec.unmarshal o.payload = some ev ∧ (o.target, ev) ∈ s.published

/-- Rows and payloads stay, so a delivery goes on carrying its row. -/
theorem Carries.later {s t : Database codec} (l : Later s t) {target : String} {d : Delivery}
    (h : Carries s.tables.outbox target d) : Carries t.tables.outbox target d := by
  obtain ⟨own, o, ho, key, event⟩ := h
  obtain ⟨o', ho', job⟩ := List.mem_map.mp (l.jobs _ (List.mem_map_of_mem ho))
  obtain ⟨key', payload⟩ := Prod.mk.inj job
  exact ⟨own, o', ho', key'.trans key, by rw [payload]; exact event⟩

/-- What a `Claim` returns is a row, with that row's event. -/
theorem carries_of_claim {outbox : List (OutboxRow codec.Payload)} {target token : String}
    {l : Duration} {locked : List (Nat × String)} {now : Time} {answer : Answer} {d : Delivery}
    (h : (claim codec outbox target l token locked now answer).2 = .ok (some d)) :
    Carries (claim codec outbox target l token locked now answer).1 target d := by
  rcases claimStatement_cases outbox target l token locked now with eq | eq | ⟨o, ho, ⟨own, _⟩, eq⟩
  · cases answer <;> simp [claim, eq] at h
  · cases answer <;> simp [claim, eq] at h
  · cases answer with
    | failed | lost => simp [claim, eq] at h
    | ok =>
      simp only [claim, eq] at h ⊢
      cases event : codec.unmarshal (lease token now l o).payload with
      | none => simp [event] at h
      | some ev =>
        simp only [event, Except.ok.injEq, Option.some.injEq] at h ⊢
        subst h
        refine ⟨rfl, lease token now l o, Rows.mem_update_of_selected ho (by simp), ?_, event⟩
        simp only [OutboxRow.key, lease, own]

/-! ## One step -/

/-- A worker goes on: what it works on it had before, or was just given. -/
theorem Honest.work {s : Replicas codec} (h : Honest s) {i : Nat} {w w' : Worker} {reply : Reply}
    (hw : s.workers[i]? = some w) (resumes : w.Resumes reply w')
    (given : ∀ d source, reply = .claimed (.ok (some d)) source →
      Carries s.db.tables.outbox w.target d)
    (acknowledged : ∀ d source, w.stage = .publishing d → reply = .published true source →
      (w.target, d.event) ∈ s.published) :
    Honest { s with workers := s.workers.set i w' } := by
  have mem := List.mem_of_getElem? hw
  refine ⟨fun x hx d hd => ?_, fun x hx d hd => ?_, h.late, h.rows⟩
  · rcases List.mem_or_eq_of_mem_set hx with old | rfl
    · exact h.working x old d hd
    · rw [resumes.target]
      rcases resumes.delivery d hd with had | ⟨source, new⟩
      · exact h.working w mem d had
      · exact given d source new
  · rcases List.mem_or_eq_of_mem_set hx with old | rfl
    · exact h.completing x old d hd
    · obtain ⟨publishing, source, reply⟩ := resumes.completing d hd
      rw [resumes.target]
      exact acknowledged d source publishing reply

/-- A step of the database: a `Complete` is one whose event was published. -/
theorem Honest.store {s : Replicas codec} (h : Honest s) (c : Consistent s.db) {e : Event}
    {db : Database codec} (hstep : step codec s.db e = some db)
    (honest : ∀ d answer, e = .complete d answer →
      Carries s.db.tables.outbox d.target d ∧ (d.target, d.event) ∈ s.published) :
    Honest { s with db := db } := by
  have later := later_step c hstep
  refine ⟨fun w hw d hd => (h.working w hw d hd).later later, h.completing, ?_, ?_⟩
  · intro d answer he
    obtain ⟨carries, published⟩ := h.late d answer he
    exact ⟨carries.later later, published⟩
  · intro o' ho' done
    rcases delivered_of_step c hstep ho' done with old | ⟨d, answer, o, rfl, ho, held, rfl⟩
    · exact h.rows o' old done
    · -- the row the delivery holds is the row it carries
      obtain ⟨⟨_, carried, hcarried, key, event⟩, published⟩ := honest d answer rfl
      simp only [leased, decide_eq_true_eq] at held
      obtain rfl : carried = o := Rows.eq_of_key c.jobs hcarried ho
        (by rw [key, OutboxRow.key, held.1, held.2.1])
      exact ⟨d.event,
        event, by rw [show (delivered _ carried).target = _ from held.2.1]; exact published⟩

/-- A statement of a worker, now or late. -/
theorem Honest.call {s t : Replicas codec} (h : Honest s) (c : Consistent s.db) {e : Event}
    {answer : Answer} (hcall : s.call e answer = some t)
    (honest : ∀ d answer, e = .complete d answer →
      Carries s.db.tables.outbox d.target d ∧ (d.target, d.event) ∈ s.published) : Honest t := by
  have now : (step codec s.db e).map (fun db => { s with db := db }) = some t → Honest t := by
    intro stepped
    obtain ⟨db, hstep, rfl⟩ := Option.map_eq_some_iff.mp stepped
    exact h.store c hstep honest
  cases answer with
  | ok => exact now hcall
  | failed => exact now hcall
  | lost =>
    cases hcall
    refine ⟨h.working, h.completing, fun d answer he => ?_, h.rows⟩
    rcases List.mem_append.mp he with old | new
    · exact h.late d answer old
    · exact honest d answer (List.mem_singleton.mp new).symm

theorem resume_some {s t : Replicas codec} {i : Nat} {reply : Reply}
    (h : s.resume i reply = some t) :
    ∃ w w', s.workers[i]? = some w ∧ w.Resumes reply w' ∧
      t = { s with workers := s.workers.set i w' } := by
  unfold Replicas.resume at h
  split at h
  · cases h
  · next w hw =>
    obtain ⟨w', resumed, rfl⟩ := Option.map_eq_some_iff.mp h
    exact ⟨w, w', hw, Worker.resume_resumes resumed, rfl⟩

/-- A reply that neither gives a delivery nor acknowledges one. -/
theorem Honest.plain {s t : Replicas codec} (h : Honest s) {i : Nat} {reply : Reply}
    (hresume : s.resume i reply = some t)
    (given : ∀ d source, reply ≠ .claimed (.ok (some d)) source)
    (acknowledged : ∀ source, reply ≠ .published true source) : Honest t := by
  obtain ⟨w, w', hw, resumes, rfl⟩ := resume_some hresume
  exact h.work hw resumes (fun d source eq => absurd eq (given d source))
    (fun _ source _ eq => absurd eq (acknowledged source))

/-- A worker that is cancelled or dies keeps nothing new. -/
theorem Honest.modify {s : Replicas codec} (h : Honest s) (i : Nat) {f : Worker → Worker}
    (target : ∀ w, (f w).target = w.target)
    (stage : ∀ w, (f w).stage = w.stage ∨ (f w).stage = .returned) :
    Honest { s with workers := s.workers.modify i f } := by
  have modified : ∀ x ∈ s.workers.modify i f, ∃ w ∈ s.workers, x = w ∨ x = f w := by
    intro x hx
    obtain ⟨j, hj⟩ := List.mem_iff_getElem?.mp hx
    rw [List.getElem?_modify] at hj
    obtain ⟨w, hw, eq⟩ := Option.map_eq_some_iff.mp hj
    refine ⟨w, List.mem_of_getElem? hw, ?_⟩
    split at eq
    · exact .inr eq.symm
    · exact .inl eq.symm
  refine ⟨fun x hx d hd => ?_, fun x hx d hd => ?_, h.late, h.rows⟩
  · obtain ⟨w, hw, rfl | rfl⟩ := modified x hx
    · exact h.working x hw d hd
    · rcases stage w with same | gone
      · rw [target]
        exact h.working w hw d (same ▸ hd)
      · rw [gone] at hd
        cases hd
  · obtain ⟨w, hw, rfl | rfl⟩ := modified x hx
    · exact h.completing x hw d hd
    · rcases stage w with same | gone
      · rw [target]
        exact h.completing w hw d (same ▸ hd)
      · exact absurd (gone.symm.trans hd) nofun

/-- What a worker's `Claim` was seen to return is a row of the database it left. -/
theorem carries_of_call {s t : Replicas codec} {target token : String}
    {locked : List (Nat × String)} {answer : Answer} {d : Delivery}
    (hcall : s.call (.claim target Replicas.leaseTime token locked answer) answer = some t)
    (returned : Replicas.seen answer (claim codec s.db.tables.outbox target Replicas.leaseTime token
      locked s.db.now answer).2 = .ok (some d)) : Carries t.db.tables.outbox target d := by
  cases answer with
  | lost => cases returned
  | ok | failed =>
    obtain ⟨db, hstep, rfl⟩ := Option.map_eq_some_iff.mp hcall
    obtain ⟨_, rfl⟩ := step_claim hstep
    exact carries_of_claim returned

/-- A statement changes no worker. -/
theorem workers_of_call {s t : Replicas codec} {e : Event} {answer : Answer}
    (hcall : s.call e answer = some t) : t.workers = s.workers := by
  cases answer with
  | lost =>
    cases hcall
    rfl
  | ok | failed =>
    obtain ⟨db, _, rfl⟩ := Option.map_eq_some_iff.mp hcall
    rfl

/-- One step keeps the invariant. -/
theorem honest_step {s t : Replicas codec} (c : Consistent s.db) (h : Honest s) {m : Move}
    (hstep : s.next m = some t) : Honest t := by
  cases m with
  | storage e =>
    simp only [Replicas.next] at hstep
    split at hstep
    · cases hstep
    · next own =>
      obtain ⟨db, stepped, rfl⟩ := Option.map_eq_some_iff.mp hstep
      refine h.store c stepped fun d answer eq => ?_
      rw [eq] at own
      exact absurd rfl own
  | start target =>
    cases hstep
    refine ⟨fun w hw d hd => ?_, fun w hw d hd => ?_, h.late, h.rows⟩
    · rcases List.mem_append.mp hw with old | new
      · exact h.working w old d hd
      · rw [List.mem_singleton.mp new] at hd
        cases hd
    · rcases List.mem_append.mp hw with old | new
      · exact h.completing w old d hd
      · rw [List.mem_singleton.mp new] at hd
        cases hd
  | cancel i =>
    cases hstep
    exact h.modify i (fun _ => rfl) fun _ => .inl rfl
  | crash i =>
    cases hstep
    exact h.modify i (fun _ => rfl) fun _ => .inr rfl
  | look i now => exact h.plain hstep nofun nofun
  | stats i ok now => exact h.plain hstep nofun nofun
  | connect i publisher ok source => exact h.plain hstep nofun nofun
  | wait i => exact h.plain hstep nofun nofun
  | claim i token locked answer source =>
    obtain ⟨w, hw, called⟩ := Option.bind_eq_some_iff.mp hstep
    obtain ⟨s', hcall, resumed⟩ := Option.bind_eq_some_iff.mp called
    have h' : Honest s' := h.call c hcall nofun
    obtain ⟨x, x', hx, resumes, rfl⟩ := resume_some resumed
    obtain rfl : w = x := by
      rw [workers_of_call hcall] at hx
      exact Option.some.inj (hw.symm.trans hx)
    refine h'.work hx resumes ?_ nofun
    intro d source' eq
    exact carries_of_call hcall (Reply.claimed.inj eq).1
  | publish i ok source =>
    obtain ⟨w, hw, published⟩ := Option.bind_eq_some_iff.mp hstep
    split at published
    · next d hs =>
      have h' : Honest { s with
          published := if ok then (w.target, d.event) :: s.published else s.published } := by
        have kept : ∀ p ∈ s.published,
            p ∈ if ok then (w.target, d.event) :: s.published else s.published := by
          intro p hp
          split
          · exact List.mem_cons_of_mem _ hp
          · exact hp
        refine ⟨h.working, fun w hw d hd => kept _ (h.completing w hw d hd), ?_, ?_⟩
        · intro d answer he
          exact ⟨(h.late d answer he).1, kept _ (h.late d answer he).2⟩
        · intro o ho done
          obtain ⟨ev, event, mem⟩ := h.rows o ho done
          exact ⟨ev, event, kept _ mem⟩
      obtain ⟨x, x', hx, resumes, rfl⟩ := resume_some published
      obtain rfl : w = x := Option.some.inj (hw.symm.trans hx)
      refine h'.work hx resumes nofun ?_
      intro d' source' publishing eq
      cases eq
      cases hs.symm.trans publishing
      exact List.mem_cons_self
    · cases published
  | retry i answer =>
    obtain ⟨w, hw, called⟩ := Option.bind_eq_some_iff.mp hstep
    split at called
    · obtain ⟨s', hcall, resumed⟩ := Option.bind_eq_some_iff.mp called
      exact (h.call c hcall nofun).plain resumed nofun nofun
    · cases called
  | complete i answer =>
    obtain ⟨w, hw, called⟩ := Option.bind_eq_some_iff.mp hstep
    split at called
    · next d hs =>
      obtain ⟨s', hcall, resumed⟩ := Option.bind_eq_some_iff.mp called
      refine (h.call c hcall ?_).plain resumed nofun nofun
      intro d' answer' eq
      cases eq
      have mem := List.mem_of_getElem? hw
      have carries := h.working w mem d (by rw [hs]; rfl)
      have published := h.completing w mem d hs
      have own : w.target = d.target := carries.1.symm
      rw [own] at carries published
      exact ⟨carries, published⟩
    · cases called
  | land k =>
    obtain ⟨e, he, landed⟩ := Option.bind_eq_some_iff.mp hstep
    obtain ⟨db, stepped, eq⟩ := Option.bind_eq_some_iff.mp landed
    cases eq
    have mem := List.mem_of_getElem? he
    have h' := h.store c stepped fun d answer eq => h.late d answer (eq ▸ mem)
    exact ⟨h'.working, h'.completing,
      fun d answer he => h'.late d answer (List.mem_of_mem_eraseIdx he), h'.rows⟩

/-! ## Every run -/

theorem db_of_call {s t : Replicas codec} {e : Event} {answer : Answer}
    (hcall : s.call e answer = some t) : (database codec).Runs s.db t.db := by
  cases answer with
  | lost =>
    cases hcall
    exact .refl _
  | ok | failed =>
    obtain ⟨db, hstep, rfl⟩ := Option.map_eq_some_iff.mp hcall
    exact .single hstep

theorem db_of_resume {s t : Replicas codec} {i : Nat} {reply : Reply}
    (h : s.resume i reply = some t) : t.db = s.db := by
  obtain ⟨_, _, _, _, rfl⟩ := resume_some h
  rfl

/-- **The workers run the database of the storage model**: every step is a run of it. -/
theorem replicas_simulates :
    System.Simulates (replicas codec) (database codec) Replicas.db := by
  refine ⟨fun s init => init.1, ?_⟩
  intro s m t _ hstep
  have resumed : ∀ {i reply}, s.resume i reply = some t → (database codec).Runs s.db t.db := by
    intro i reply h
    rw [db_of_resume h]
    exact .refl _
  have called : ∀ {e answer i reply},
      (s.call e answer).bind (fun s' => s'.resume i reply) = some t →
      (database codec).Runs s.db t.db := by
    intro e answer i reply h
    obtain ⟨s', hcall, hresume⟩ := Option.bind_eq_some_iff.mp h
    rw [db_of_resume hresume]
    exact db_of_call hcall
  change s.next m = some t at hstep
  cases m with
  | storage e =>
    simp only [Replicas.next] at hstep
    split at hstep
    · cases hstep
    · obtain ⟨db, stepped, rfl⟩ := Option.map_eq_some_iff.mp hstep
      exact .single stepped
  | start | cancel | crash =>
    cases hstep
    exact .refl _
  | look | stats | connect | wait => exact resumed hstep
  | claim i token locked answer source =>
    obtain ⟨w, _, h⟩ := Option.bind_eq_some_iff.mp hstep
    exact called h
  | publish i ok source =>
    obtain ⟨w, _, h⟩ := Option.bind_eq_some_iff.mp hstep
    split at h
    · rw [db_of_resume h]
      exact .refl _
    · cases h
  | retry i answer =>
    obtain ⟨w, _, h⟩ := Option.bind_eq_some_iff.mp hstep
    split at h
    · exact called h
    · cases h
  | complete i answer =>
    obtain ⟨w, _, h⟩ := Option.bind_eq_some_iff.mp hstep
    split at h
    · exact called h
    · cases h
  | land k =>
    obtain ⟨e, _, h⟩ := Option.bind_eq_some_iff.mp hstep
    obtain ⟨db, stepped, eq⟩ := Option.bind_eq_some_iff.mp h
    cases eq
    exact .single stepped

theorem honest {s : Replicas codec} (h : (replicas codec).Reachable s) : Honest s := by
  refine h.invariant (I := Honest) ?_ ?_
  · rintro s₀ ⟨init, workers, late, _⟩
    refine ⟨?_, ?_, ?_, ?_⟩
    · intro w hw
      rw [workers] at hw
      cases hw
    · intro w hw
      rw [workers] at hw
      cases hw
    · intro d answer he
      rw [late] at he
      cases he
    · intro o ho
      rw [init.outbox] at ho
      cases ho
  · intro s m t hs ih hstep
    exact honest_step (consistent (replicas_simulates.reachable hs)) ih hstep

/-- A run of the workers is a run of their database. -/
theorem db_runs {s t : Replicas codec} (h : (replicas codec).Reachable s)
    (run : (replicas codec).Runs s t) : (database codec).Runs s.db t.db :=
  h.run_rel (R := fun s t => (database codec).Runs s.db t.db) (fun _ => .refl _) .trans
    (fun _ _ _ hs hstep => replicas_simulates.step _ _ _ hs hstep) run

/-- **No event is lost by the outbox.** In every reachable state a delivered row's event has been
published to its target: some worker's `Publish` of it returned `nil`. And from there on, along
every run: a row is never removed and keeps its payload; a delivered row keeps every column, holds
no token, and no later operation is on it. -/
theorem outbox_loses_nothing {s t : Replicas codec} (reach : (replicas codec).Reachable s)
    (run : (replicas codec).Runs s t) :
    (∀ o ∈ s.db.tables.outbox, o.deliveredAt ≠ none →
      ∃ ev, codec.unmarshal o.payload = some ev ∧ (o.target, ev) ∈ s.published) ∧
    (∀ o ∈ s.db.tables.outbox, ∃ o' ∈ t.db.tables.outbox, o'.key = o.key ∧ o'.payload = o.payload ∧
      (o.deliveredAt ≠ none → o' = o)) ∧
    (∀ o ∈ s.db.tables.outbox, o.deliveredAt ≠ none → o.leaseToken = none) ∧
    ∃ new, t.db.log = new ++ s.db.log ∧
      ∀ o ∈ s.db.tables.outbox, o.deliveredAt ≠ none → ∀ e ∈ new, e.row ≠ o.key := by
  have dbReach := replicas_simulates.reachable reach
  have dbRun := db_runs reach run
  have final := final dbReach dbRun
  refine ⟨(honest reach).rows, ?_, ?_, final.log⟩
  · intro o ho
    by_cases done : o.deliveredAt = none
    · have jobs := (later dbReach dbRun).jobs _ (List.mem_map_of_mem ho)
      obtain ⟨o', ho', job⟩ := List.mem_map.mp jobs
      obtain ⟨key, payload⟩ := Prod.mk.inj job
      exact ⟨o', ho', key, payload, fun delivered => absurd done delivered⟩
    · exact ⟨o, final.rows o ho done, rfl, rfl, fun _ => rfl⟩
  · intro o ho done
    exact ((leases dbReach).rows o ho).token_of_delivered done

/-! ## A run -/

/-- A worker publishes a job and dies before it completes it; when the lease is over a second worker
claims the job again, publishes it and completes it. -/
def crashedWorker : List Move :=
  oneJob.map .storage ++
  [.start "nats", .start "nats", .look 0 1, .stats 0 true 1, .claim 0 "t1" [] .ok 0,
    .connect 0 (some 7) true 0, .publish 0 true 0, .crash 0, .storage (.tick 45000000),
    .look 1 1, .stats 1 false 1, .claim 1 "t2" [] .ok 0, .connect 1 (some 8) true 0,
    .publish 1 true 0, .complete 1 .ok]

def noReplicas : Replicas plainCodec := ⟨emptyDatabase, [], [], []⟩

theorem outbox_loses_nothing_crashed :
    ∃ s, (replicas plainCodec).Reachable s ∧ s.published.length = 2 ∧
      ∃ o ∈ s.db.tables.outbox, o.deliveredAt ≠ none ∧
        ∃ ev, plainCodec.unmarshal o.payload = some ev ∧ (o.target, ev) ∈ s.published := by
  have replayed : ∃ s, System.replay Replicas.next noReplicas crashedWorker = some s ∧
      s.published.length = 2 ∧ ∃ o ∈ s.db.tables.outbox, o.deliveredAt ≠ none :=
    ⟨_, rfl, rfl, _, List.mem_singleton_self _, nofun⟩
  obtain ⟨s, hs, published, o, ho, done⟩ := replayed
  have reach : (replicas plainCodec).Reachable s :=
    ⟨noReplicas, ⟨initial_empty, rfl, rfl, rfl⟩, System.Runs.of_replay hs⟩
  exact ⟨s, reach, published, o, ho, done, (outbox_loses_nothing reach (.refl s)).1 o ho done⟩

end OtusApp.Outbox
