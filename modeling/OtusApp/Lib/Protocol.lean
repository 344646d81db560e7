import OtusApp.Lib.Program
import OtusApp.Lib.Rows

/-!
# Programs that follow a protocol

A protocol is an automaton over the calls of a program: in which of its modes a call may be made,
and the mode each answer leads to. A program follows it from a mode when no sequence of answers
leads to a call that is not admitted (`Prog.Follows`); what is asked of the mode and the value at
its end is the postcondition. Run by itself, it is in a mode at any time (`Prog.Follows.after`).

Run by a machine, each program is in a mode of its own. What every step keeps of the environment and
the modes together is an invariant of the machine (`Machine.tracked`): the programs themselves are
no longer looked at.
-/

namespace Program

open Transition

variable {Q E : Type} {R : E → Type} {α β M S C B : Type}

/-- In which modes a call may be made, and where its answers lead. -/
abbrev Protocol (E : Type) (R : E → Type) (M : Type) := M → (e : E) → Option (R e → M)

namespace Prog

/-- Whatever it is answered, the program makes its calls where the protocol admits them, and ends
with the postcondition. -/
def Follows (next : Protocol E R M) (post : M → α → Prop) : Prog E R α → M → Prop
  | .ret a, m => post m a
  | .call e k, m => ∃ onward, next m e = some onward ∧ ∀ r, (k r).Follows next post (onward r)

variable {next : Protocol E R M}

theorem Follows.bind {mid : M → α → Prop} {post : M → β → Prop} {x : Prog E R α}
    {f : α → Prog E R β} {m : M} (h : x.Follows next mid m)
    (rest : ∀ m a, mid m a → (f a).Follows next post m) :
    (x >>= f).Follows next post m := by
  induction x generalizing m with
  | ret a => exact rest m a h
  | call e k ih =>
    obtain ⟨onward, admitted, follows⟩ := h
    exact ⟨onward, admitted, fun r => ih r (follows r)⟩

theorem Follows.mono {post post' : M → α → Prop} (weaker : ∀ m a, post m a → post' m a)
    {x : Prog E R α} {m : M} (h : x.Follows next post m) : x.Follows next post' m := by
  induction x generalizing m with
  | ret a => exact weaker m a h
  | call e k ih =>
    obtain ⟨onward, admitted, follows⟩ := h
    exact ⟨onward, admitted, fun r => ih r (follows r)⟩

/-- At any time of a run by itself, what the answers keep of the environment and the mode holds, and
what is left of the program follows the protocol from there. -/
theorem Follows.after {respond : S → (e : E) → C → Option (R e × S)} {post : M → α → Prop}
    {J : S → M → Prop}
    (keeps : ∀ s m e onward c r t, J s m → next m e = some onward → respond s e c = some (r, t) →
      J t (onward r))
    {x y : Prog E R α} {s t : S} {cs : List C} {m : M} (follows : x.Follows next post m) (h : J s m)
    (runs : x.after respond s cs = some (y, t)) : ∃ mode, J t mode ∧ y.Follows next post mode := by
  induction cs generalizing x s m with
  | nil =>
    rw [Prog.after] at runs
    cases runs
    exact ⟨m, h, follows⟩
  | cons c cs ih =>
    obtain ⟨e, k, r, u, rfl, answers, rest⟩ := after_cons runs
    obtain ⟨onward, admitted, follows⟩ := follows
    exact ih (follows r) (keeps s m e onward c r u h admitted answers) rest

end Prog

namespace Machine

variable {m : Machine Q E R α S C B} {next : Protocol E R M} {post : Q → M → α → Prop}

/-- Each program follows the protocol from its mode on. -/
def Tracks (next : Protocol E R M) (post : Q → M → α → Prop) (modes : List M)
    (procs : List (Q × Prog E R α)) : Prop :=
  List.Forall₂ (fun mode p => p.2.Follows next (post p.1) mode) modes procs

/-- **Modes.** What each step keeps of the environment and the modes of the programs holds along
every run. -/
theorem tracked {init : S → Prop} {admits : Pool Q E R α S → Move Q C B → Prop} (first : Q → M)
    (J : S → List M → Prop) (start : ∀ s, init s → J s [])
    (handlers : ∀ w q, admits w (.arrive q) → (m.handler q).Follows next (post q) (first q))
    (arrives : ∀ w q t modes, admits w (.arrive q) → J w.env modes → m.arrive w.env q = some t →
      J t (modes ++ [first q]))
    (goes : ∀ w i c q e k r t modes mode onward, ((m.system init).restrict admits).Reachable w →
      admits w (.go i c) → w.procs[i]? = some (q, .call e k) → J w.env modes →
      modes[i]? = some mode → next mode e = some onward → m.respond w.env (i, q) e c = some (r, t) →
      J t (modes.set i (onward r)))
    (moves : ∀ w b t modes, ((m.system init).restrict admits).Reachable w →
      admits w (.background b) → J w.env modes → m.background w.env b = some t → J t modes)
    {w : Pool Q E R α S} (h : ((m.system init).restrict admits).Reachable w) :
    ∃ modes, J w.env modes ∧ Tracks next post modes w.procs := by
  refine h.invariant (I := fun w => ∃ modes, J w.env modes ∧ Tracks next post modes w.procs) ?_ ?_
  · rintro w ⟨begins, none, _⟩
    rw [none]
    exact ⟨[], start _ begins, .nil⟩
  · rintro w mv w' reached ⟨modes, env, tracks⟩ ⟨admitted, hstep⟩
    cases stepped hstep with
    | @arrive q t taken =>
      refine ⟨modes ++ [first q], arrives _ _ _ _ admitted env taken, ?_⟩
      exact List.rel_append tracks (.cons (handlers w q admitted) .nil)
    | @go i c q e k r t runs answers =>
      have entry := Rows.forall₂_getElem? tracks i
      rw [runs] at entry
      generalize found : modes[i]? = mode at entry
      obtain @⟨mode, _, onward, allowed, follows⟩ := entry
      refine ⟨modes.set i (onward r), goes _ _ _ _ _ _ _ _ _ _ _ reached admitted runs env found
        allowed answers, ?_⟩
      exact Rows.forall₂_set tracks i (follows r)
    | background moved => exact ⟨modes, moves _ _ _ _ reached admitted env moved, tracks⟩

/-- **Answers.** What the modes say of each answer at the moment it is given, those given at once
included, holds of every answer of a run. -/
theorem tracked_answered {init : S → Prop} {admits : Pool Q E R α S → Move Q C B → Prop}
    {J : S → List M → Prop} (Answer : Q → α → S → Prop)
    (tracks : ∀ w, ((m.system init).restrict admits).Reachable w → ∃ modes, J w.env modes ∧
      Tracks next post modes w.procs)
    (immediate : ∀ s q a t, m.arrive s q = some t → m.handler q = .ret a → Answer q a t)
    (returns : ∀ s i c q e r t a modes mode onward, J s modes → modes[i]? = some mode →
      next mode e = some onward → m.respond s (i, q) e c = some (r, t) →
      post q (onward r) a → Answer q a t)
    {w : Pool Q E R α S} (h : ((m.system init).restrict admits).Reachable w) :
    ∀ q a s, (q, a, s) ∈ w.answered → Answer q a s := by
  refine h.invariant (I := fun w => ∀ q a s, (q, a, s) ∈ w.answered → Answer q a s) ?_ ?_
  · rintro w ⟨_, _, none⟩ q a s mem
    simp [none] at mem
  · rintro w mv w' reached ih ⟨_, hstep⟩ q a s mem
    cases stepped hstep with
    | @arrive q' t taken =>
      rcases List.mem_append.mp mem with new | old
      · cases handler : m.handler q' with
        | ret b =>
          simp only [Pool.note, handler, List.mem_singleton] at new
          cases new
          exact immediate _ _ _ _ taken handler
        | call e k => simp [Pool.note, handler] at new
      · exact ih q a s old
    | @go i c q' e k r t runs answers =>
      rcases List.mem_append.mp mem with new | old
      · obtain ⟨modes, env, follow⟩ := tracks w reached
        have entry := Rows.forall₂_getElem? follow i
        rw [runs] at entry
        generalize found : modes[i]? = mode at entry
        obtain @⟨mode, _, onward, allowed, follows⟩ := entry
        have rest := follows r
        cases done : k r with
        | ret b =>
          simp only [Pool.note, done, List.mem_singleton] at new
          cases new
          rw [done] at rest
          exact returns _ _ _ _ _ _ _ _ _ _ _ env found allowed answers rest
        | call e' k' => simp [Pool.note, done] at new
      · exact ih q a s old
    | background moved => exact ih q a s mem

/-- Where all programs have returned, the modes are those the postcondition admits. -/
theorem Tracks.idle {modes : List M} {w : Pool Q E R α S} (h : Tracks next post modes w.procs)
    (idle : w.Idle) {mode : M} (mem : mode ∈ modes) :
    ∃ q a, (q, .ret a) ∈ w.procs ∧ post q mode a := by
  obtain ⟨i, running⟩ := List.mem_iff_getElem?.mp mem
  have entry := Rows.forall₂_getElem? h i
  rw [running] at entry
  generalize found : w.procs[i]? = p at entry
  obtain @⟨_, ⟨q, p⟩, follows⟩ := entry
  cases p with
  | ret a => exact ⟨q, a, List.mem_of_getElem? found, follows⟩
  | call e k => exact absurd found (idle i q e k)

end Machine

end Program
