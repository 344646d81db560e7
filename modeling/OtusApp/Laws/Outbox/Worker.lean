import OtusApp.Laws.Resilience.Retry
import OtusApp.Outbox.Run

/-!
# The machine of a worker is its loop

A worker stands in front of a call of `run` (`Stage`), and a reply takes it to the next one where
the calls in between are the loop's own: the clock, the draw of a delay, the `Close` of a publisher.
What is left of the program where the worker stands (`code`) goes on with the reply to what is left
of it where the worker stands then (`resume_goes`), so a worker is at any time where some run of the
program is (`under_way`).
-/

namespace OtusApp.Outbox.Run

open Messaging Go Resilience Program

/-- The variables of a worker. -/
def vars (w : Worker) : Vars := ⟨w.publisher, w.attempt, w.claimAttempt, w.nextStats⟩

/-- What follows an iteration. -/
def conclude (target : String) (turns : Nat) (x : Code Turn) : Code Bool :=
  x >>= proceed (iterate target turns) >>= finish

/-- What is left of `run` where a worker stands, with so many iterations to come. -/
def code (turns : Nat) (w : Worker) : Code Bool :=
  match w.stage with
  | .head => do finish (← iterate w.target turns (vars w))
  | .stats => conclude w.target turns (stats w.target (vars w))
  | .claiming => conclude w.target turns (claim w.target (vars w))
  | .connecting d => conclude w.target turns (deliver w.target (vars w) d)
  | .publishing d => conclude w.target turns (deliver w.target (vars w) d)
  | .retrying d delay => conclude w.target turns (retry (vars w) d delay)
  | .completing d => conclude w.target turns (complete (vars w) d)
  | .pausing delay => conclude w.target turns (pause (vars w) delay)
  | .returned => .ret true

/-- A worker connects where it has no publisher, and publishes where it has one. -/
structure Sound (w : Worker) : Prop where
  connecting : ∀ d, w.stage = .connecting d → w.publisher = none
  publishing : ∀ d, w.stage = .publishing d → w.publisher.isSome

/-- The outcomes of the calls a reply stands for. -/
def outcomes (w : Worker) (reply : Reply) : Outcomes :=
  let quiet : Outcomes :=
    ⟨!w.cancelled, 0, true, (none, true), (none, true), true, true, true, 0, !w.cancelled⟩
  match reply with
  | .clock now => { quiet with now := now }
  | .stats ok now => { quiet with stats := ok, now := now }
  | .claimed (.error _) source => { quiet with claim := (none, false), source := source }
  | .claimed (.ok d) _ => { quiet with claim := (d, true) }
  | .connected publisher ok source => { quiet with factory := (publisher, ok), source := source }
  | .published ok source => { quiet with publish := ok, source := source }
  | .retried result => { quiet with retry := result.isOk }
  | .completed result => { quiet with complete := result.isOk }
  | .waited => quiet

/-- One of the two programs is what is left of the other, the calls between them ending as `o`
says. -/
abbrev Goes (o : Outcomes) (x y : Code Bool) : Prop := Prog.Goes record o x y

theorem Goes.refl (o : Outcomes) (x : Code Bool) : Goes o x x := Prog.Goes.refl o x

theorem Goes.call {o : Outcomes} {e : Call} {k : e.Result → Code Bool} {y : Code Bool}
    (h : Goes o (k (o.answer e)) y) : Goes o (.call e k) y :=
  Prog.Goes.call (fun _ => ⟨_, rfl⟩) h

theorem return_goes (o : Outcomes) (turns : Nat) (w : Worker) :
    Goes o (finish (some (vars w))) (code turns w.return_) := by
  obtain ⟨_, _, publisher, _, _, _, _⟩ := w
  cases publisher with
  | none => exact .refl o _
  | some p => exact .call (.refl o _)

/-- The delay that is drawn is the one the worker takes. -/
theorem delayed_goes {o : Outcomes} {target : String} {turns : Nat} {v : Vars} {attempt : Int}
    {next : Duration → Code Turn} {y : Code Bool} {delay : Duration}
    (drawn : backoff attempt o.source = some delay)
    (h : Goes o (conclude target turns (next delay)) y) :
    Goes o (conclude target turns (delayed v attempt next)) y := by
  refine .call ?_
  simp only [Outcomes.answer, Prog.bind, drawn]
  exact h

theorem fail_eq {w : Worker} {d : Delivery} {source : Nat} {delay : Duration}
    (drawn : backoff (max d.attempts (w.attempt + 1)) source = some delay) :
    w.fail d source = { w with publisher := none, stage := .retrying d delay } := by
  unfold Worker.fail
  rw [drawn]

theorem fail_goes (o : Outcomes) (turns : Nat) (w : Worker) (d : Delivery) :
    Goes o (conclude w.target turns (fail (vars w) d)) (code turns (w.fail d o.source)) := by
  obtain ⟨delay, drawn, _, _⟩ := backoff_between (max d.attempts (w.attempt + 1)) o.source
  rw [fail_eq drawn]
  have shut : Goes o (conclude w.target turns (delayed { vars w with publisher := none }
      (max d.attempts (w.attempt + 1)) (retry { vars w with publisher := none } d)))
      (code turns { w with publisher := none, stage := .retrying d delay }) :=
    delayed_goes drawn (Goes.refl o _)
  obtain ⟨_, _, publisher, _, _, _, _⟩ := w
  cases publisher with
  | none => exact shut
  | some p => exact Goes.call shut

/-- The iterations that are left, one of which begins at the head of the loop. -/
def left (turns : Nat) : Stage → Nat
  | .head => turns + 1
  | _ => turns

/-- **The machine of the worker is the program**: with each reply the worker goes on to where the
program is after the calls the reply stands for. -/
theorem resume_goes {w w' : Worker} {reply : Reply} (sound : Sound w) (h : w.resume reply = some w')
    (turns : Nat) :
    Goes (outcomes w reply) (code (left turns w.stage) w) (code turns w') := by
  obtain ⟨target, cancelled, publisher, attempt, claimAttempt, nextStats, stage⟩ := w
  cases stage with
  | head =>
    cases reply with
    | clock now =>
      refine Goes.call ?_
      cases cancelled with
      | true =>
        cases h
        exact return_goes _ turns _
      | false =>
        refine Goes.call ?_
        show Goes _
          (conclude target turns (if nextStats.all (· < now) then stats target _
            else claim target _)) _
        have same : (if nextStats.all (· < now) then some _ else some _) = some w' := h
        by_cases due : nextStats.all (· < now)
        · rw [if_pos due] at same ⊢
          cases same
          exact Goes.refl _ _
        · rw [if_neg due] at same ⊢
          cases same
          exact Goes.refl _ _
    | _ => cases h
  | stats =>
    cases reply with
    | stats ok now =>
      cases h
      exact Goes.call (Goes.call (Goes.refl _ _))
    | _ => cases h
  | claiming =>
    cases reply with
    | claimed result source =>
      refine Goes.call ?_
      cases result with
      | error e =>
        obtain ⟨delay, drawn, _, _⟩ := backoff_between (claimAttempt + 1) source
        have paused : some (Worker.pause _ (backoff (claimAttempt + 1) source)) = some w' := h
        rw [drawn] at paused
        cases paused
        exact delayed_goes drawn (Goes.refl _ _)
      | ok d =>
        cases d with
        | none =>
          cases h
          exact Goes.refl _ _
        | some d =>
          cases h
          cases publisher with
          | none => exact Goes.refl _ _
          | some p => exact Goes.refl _ _
    | _ => cases h
  | connecting d =>
    cases reply with
    | connected opened ok source =>
      have none := sound.connecting d rfl
      cases none
      refine Goes.call ?_
      cases opened with
      | none =>
        have fails : (if ok = true ∧ false = true then some _ else some _) = some w' := h
        rw [if_neg fun both => Bool.false_ne_true both.2] at fails
        cases fails
        exact fail_goes _ turns ⟨target, cancelled, .none, attempt, claimAttempt, nextStats,
          .connecting d⟩ d
      | some p =>
        cases ok with
        | true =>
          cases h
          exact Goes.refl _ _
        | false =>
          cases h
          exact fail_goes _ turns ⟨target, cancelled, some p, attempt, claimAttempt, nextStats,
            .connecting d⟩ d
    | _ => cases h
  | publishing d =>
    cases reply with
    | published ok source =>
      obtain ⟨p, opened⟩ := Option.isSome_iff_exists.mp (sound.publishing d rfl)
      cases opened
      refine Goes.call ?_
      cases ok with
      | true =>
        cases h
        exact Goes.refl _ _
      | false =>
        cases h
        exact fail_goes _ turns ⟨target, cancelled, some p, attempt, claimAttempt, nextStats,
          .publishing d⟩ d
    | _ => cases h
  | retrying d delay =>
    cases reply with
    | retried result =>
      cases h
      exact Goes.call (Goes.refl _ _)
    | _ => cases h
  | completing d =>
    cases reply with
    | completed result =>
      cases h
      exact Goes.call (Goes.refl _ _)
    | _ => cases h
  | pausing delay =>
    cases reply with
    | waited =>
      refine Goes.call ?_
      cases cancelled with
      | true =>
        cases h
        exact return_goes _ turns _
      | false =>
        cases h
        exact Goes.refl _ _
    | _ => cases h
  | returned => cases h

theorem fail_sound (w : Worker) (d : Delivery) (source : Nat) : Sound (w.fail d source) := by
  obtain ⟨delay, drawn, _, _⟩ := backoff_between (max d.attempts (w.attempt + 1)) source
  rw [fail_eq drawn]
  exact ⟨nofun, nofun⟩

theorem pause_sound (w : Worker) (delay : Option Duration) : Sound (w.pause delay) := by
  cases delay with
  | none => exact ⟨nofun, nofun⟩
  | some delay => exact ⟨nofun, nofun⟩

theorem resume_sound {w w' : Worker} {reply : Reply} (h : w.resume reply = some w') : Sound w' := by
  unfold Worker.resume at h
  split at h
  · split at h
    · cases h
      exact ⟨nofun, nofun⟩
    · split at h
      · cases h
        exact ⟨nofun, nofun⟩
      · cases h
        exact ⟨nofun, nofun⟩
  · cases h
    exact ⟨nofun, nofun⟩
  · cases h
    exact pause_sound _ _
  · cases h
    exact ⟨nofun, nofun⟩
  · next d source _ =>
    cases h
    cases kept : w.publisher with
    | none => exact ⟨fun _ _ => rfl, nofun⟩
    | some p => exact ⟨nofun, fun _ _ => rfl⟩
  · next d publisher ok source _ =>
    simp only at h
    split at h
    · next works =>
      cases h
      exact ⟨nofun, fun _ _ => works.2⟩
    · cases h
      exact fail_sound _ d source
  · next d ok source _ =>
    split at h
    · cases h
      exact ⟨nofun, nofun⟩
    · cases h
      exact fail_sound _ d source
  · cases h
    exact ⟨nofun, nofun⟩
  · cases h
    exact ⟨nofun, nofun⟩
  · split at h
    · cases h
      exact ⟨nofun, nofun⟩
    · cases h
      exact ⟨nofun, nofun⟩
  · cases h

/-- What becomes of a worker: it is resumed, and its context is cancelled. -/
inductive Becomes (w : Worker) : Worker → Prop
  | refl : Becomes w w
  | resume {w' w'' : Worker} {reply : Reply} (before : Becomes w w')
      (step : w'.resume reply = some w'') : Becomes w w''
  | cancel {w' : Worker} (before : Becomes w w') : Becomes w { w' with cancelled := true }

theorem Becomes.sound {target : String} {w : Worker} (h : Becomes (Worker.start target) w) :
    Sound w := by
  induction h with
  | refl => exact ⟨nofun, nofun⟩
  | resume _ step _ => exact resume_sound step
  | cancel _ ih => exact ⟨ih.connecting, ih.publishing⟩

/-- A worker is at any time where some run of the program is, with any number of iterations to
come. -/
theorem under_way {target : String} {w : Worker} (h : Becomes (Worker.start target) w)
    (turns : Nat) :
    ∃ total os trace, (run target total).after record [] os = some (code turns w, trace) := by
  induction h generalizing turns with
  | refl => exact ⟨turns, [], [], by rw [Prog.after]; rfl⟩
  | @resume w' w'' reply before step ih =>
    obtain ⟨total, os, trace, runs⟩ := ih (left turns w'.stage)
    exact ⟨total, (resume_goes before.sound step turns).after runs⟩
  | cancel _ ih => exact ih turns

end OtusApp.Outbox.Run
