import OtusApp.Lib.Program
import OtusApp.Lib.Rows

/-!
# Machines in lockstep

Two runs of one machine whose requests differ only in ways that no program and no answer depends on,
as long as the answers to their calls are of a kind that `admits` says. Step by step they do the
same (`Lockstep.trace`): a move is enabled in both or in neither, the environments stay the same as
far as `same` looks, and what is left of the programs agrees.
-/

namespace Program

open Transition

variable {Q E : Type} {R : E → Type} {α S C B : Type}

/-- The states along a list of labels, as far as they are enabled. -/
def trace {S E : Type} (step : S → E → Option S) : S → List E → List S
  | _, [] => []
  | s, e :: rest =>
    match step s e with
    | some t => t :: trace step t rest
    | none => []

theorem rel_map {α β γ δ : Type} {r : α → β → Prop} {r' : γ → δ → Prop} {f : α → γ} {g : β → δ}
    {a : Option α} {b : Option β} (h : Option.Rel r a b) (keeps : ∀ x y, r x y → r' (f x) (g y)) :
    Option.Rel r' (a.map f) (b.map g) := by
  cases h with
  | none => exact .none
  | some related => exact .some (keeps _ _ related)

/-- Programs that make the same calls and return the same, as long as the answers are admitted. -/
inductive Prog.Agree (admits : (e : E) → R e → Prop) : Prog E R α → Prog E R α → Prop
  | ret (a : α) : Agree admits (.ret a) (.ret a)
  | call {e : E} {k k' : R e → Prog E R α} (rest : ∀ r, admits e r → Agree admits (k r) (k' r)) :
      Agree admits (.call e k) (.call e k')

theorem Prog.Agree.refl {admits : (e : E) → R e → Prop} (p : Prog E R α) : Agree admits p p := by
  induction p with
  | ret a => exact .ret a
  | call e k ih => exact .call fun r _ => ih r

theorem Prog.Agree.symm {admits : (e : E) → R e → Prop} {p p' : Prog E R α}
    (h : Agree admits p p') :
    Agree admits p' p := by
  induction h with
  | ret a => exact .ret a
  | call _ ih => exact .call ih

/-- Moves that differ in their request at most. -/
inductive Move.Like (like : Q → Q → Prop) : Move Q C B → Move Q C B → Prop
  | arrive {q q' : Q} (h : like q q') : Like like (.arrive q) (.arrive q')
  | go (i : Nat) (c : C) : Like like (.go i c) (.go i c)
  | background (b : B) : Like like (.background b) (.background b)

/-- The same requests, up to `like`, with programs left that agree, over the same environment, up to
`same`. -/
structure Pool.Alike (like : Q → Q → Prop) (admits : (e : E) → R e → Prop) (same : S → S → Prop)
    (w w' : Pool Q E R α S) : Prop where
  env : same w.env w'.env
  procs : List.Forall₂ (fun p p' => like p.1 p'.1 ∧ p.2.Agree admits p'.2) w.procs w'.procs

/-- A request is answered in both, and the same, or in neither. -/
theorem Pool.Alike.answers {like : Q → Q → Prop} {admits : (e : E) → R e → Prop}
    {same : S → S → Prop} {w w' : Pool Q E R α S} (h : w.Alike like admits same w') {i : Nat}
    {q : Q} {a : α} (returned : w.procs[i]? = some (q, .ret a)) :
    ∃ q', like q q' ∧ w'.procs[i]? = some (q', .ret a) := by
  have entry := Rows.forall₂_getElem? h.procs i
  rw [returned] at entry
  generalize found : w'.procs[i]? = other at entry
  obtain @⟨_, ⟨q', p'⟩, related, agree⟩ := entry
  cases agree
  exact ⟨q', related, rfl⟩

namespace Machine

/-- Like requests run programs that agree, and are answered the same; the answers of an environment
that is `fit` are admitted. -/
structure Lockstep (m : Machine Q E R α S C B) (like : Q → Q → Prop) (admits : (e : E) → R e → Prop)
    (fit : S → Prop) (same : S → S → Prop) : Prop where
  handler : ∀ q q', like q q' → (m.handler q).Agree admits (m.handler q')
  admitted : ∀ s caller e c r t, fit s → m.respond s caller e c = some (r, t) → admits e r
  arrive : ∀ s s' q q', same s s' → like q q' → Option.Rel same (m.arrive s q) (m.arrive s' q')
  respond : ∀ s s' i q q' e c, same s s' → like q q' →
    Option.Rel (fun a a' => a.1 = a'.1 ∧ same a.2 a'.2) (m.respond s (i, q) e c)
      (m.respond s' (i, q') e c)
  background : ∀ s s' b, same s s' → Option.Rel same (m.background s b) (m.background s' b)

namespace Lockstep

variable {m : Machine Q E R α S C B} {like : Q → Q → Prop} {admits : (e : E) → R e → Prop}
  {fit : S → Prop} {same : S → S → Prop}

theorem step (h : m.Lockstep like admits fit same) {w w' : Pool Q E R α S}
    (alike : w.Alike like admits same w') (fits : fit w.env) {mv mv' : Move Q C B}
    (moves : Move.Like like mv mv') :
    Option.Rel (Pool.Alike like admits same) (m.step w mv) (m.step w' mv') := by
  cases moves with
  | @arrive q q' related =>
    have entry : List.Forall₂ (fun p p' : Q × Prog E R α => like p.1 p'.1 ∧ p.2.Agree admits p'.2)
        [(q, m.handler q)] [(q', m.handler q')] := .cons ⟨related, h.handler q q' related⟩ .nil
    refine rel_map (h.arrive _ _ q q' alike.env related) fun s s' same => ?_
    exact ⟨same, List.rel_append alike.procs entry⟩
  | go i c =>
    have entry := Rows.forall₂_getElem? alike.procs i
    simp only [Machine.step]
    revert entry
    generalize w.procs[i]? = p
    generalize w'.procs[i]? = p'
    rintro (@⟨⟨q, p⟩, ⟨q', p'⟩, related, agree⟩ | _)
    · cases agree with
      | ret a => exact .none
      | @call e k k' rest =>
        have answers := h.respond _ _ i q q' e c alike.env related
        have admitted := h.admitted w.env (i, q) e c
        dsimp only
        revert answers admitted
        generalize m.respond w.env (i, q) e c = a
        generalize m.respond w'.env (i, q') e c = a'
        rintro (@⟨⟨r, s⟩, ⟨_, s'⟩, rfl, same⟩ | _) admitted
        · refine .some ⟨same, ?_⟩
          exact Rows.forall₂_set alike.procs i ⟨related, rest r (admitted r s fits rfl)⟩
        · exact .none
    · exact .none
  | background b =>
    refine rel_map (h.background _ _ b alike.env) fun s s' same => ?_
    exact ⟨same, alike.procs⟩

/-- **Lockstep.** Like moves lead through alike states, and end at the same place, if all states on
the way are fit. -/
theorem trace (h : m.Lockstep like admits fit same) {w w' : Pool Q E R α S}
    (alike : w.Alike like admits same w') {moves moves' : List (Move Q C B)}
    (related : List.Forall₂ (Move.Like like) moves moves')
    (fits : ∀ t ∈ w :: Program.trace m.step w moves, fit t.env) :
    List.Forall₂ (Pool.Alike like admits same) (Program.trace m.step w moves)
      (Program.trace m.step w' moves') := by
  induction related generalizing w w' with
  | nil => exact .nil
  | cons first _ ih =>
    have next := h.step alike (fits w List.mem_cons_self) first
    simp only [Program.trace] at fits ⊢
    revert next fits
    generalize m.step w _ = t
    generalize m.step w' _ = t'
    rintro fits (@⟨t, t', next⟩ | _)
    · exact .cons next (ih next fun u mem => fits u (List.mem_cons_of_mem _ mem))
    · exact .nil

end Lockstep

end Machine

end Program
