import Mathlib.Logic.Relation

/-!
# Labelled transition systems

A system is a set of initial states and a labelled step relation. A run is a finite sequence of
steps, and a state is reachable when some run ends there. `restrict` keeps the steps an admission
predicate accepts: a run of the restricted system is a run all of whose steps meet it.

The rules the developments below use: an invariant is proved on the initial states and on one step
(`Reachable.invariant`), a relation that every step keeps is kept along every run
(`Reachable.run_rel`), a view of the states that turns each step into a run of a second system turns
reachable states into reachable states (`Simulates.reachable`), and an observer beside a system
neither adds runs nor takes any away (`Reachable.of_observed`, `Reachable.observed`).
-/

namespace Transition

universe u v w x y

/-- A labelled transition system. -/
structure System (S : Type u) (E : Type v) where
  init : S → Prop
  step : S → E → S → Prop

namespace System

variable {S : Type u} {E : Type v} {T : Type w} {F : Type x}

/-- One step, its label forgotten. -/
def Next (sys : System S E) (s t : S) : Prop := ∃ e, sys.step s e t

/-- A run of any length. -/
def Runs (sys : System S E) : S → S → Prop := Relation.ReflTransGen sys.Next

/-- The states some run from an initial state ends in. -/
def Reachable (sys : System S E) (t : S) : Prop := ∃ s, sys.init s ∧ sys.Runs s t

/-- The system of an executable step: `none` where the label is not enabled. -/
def ofStep (init : S → Prop) (step : S → E → Option S) : System S E where
  init := init
  step s e t := step s e = some t

/-- The executable step along a list of labels. -/
def replay (step : S → E → Option S) : S → List E → Option S
  | s, [] => some s
  | s, e :: rest => (step s e).bind fun t => replay step t rest

theorem replay_append (step : S → E → Option S) (s : S) (first rest : List E) :
    replay step s (first ++ rest) = (replay step s first).bind fun t => replay step t rest := by
  induction first generalizing s with
  | nil => rfl
  | cons e _ ih =>
    simp only [List.cons_append, replay]
    cases step s e with
    | none => rfl
    | some t => exact ih t

/-- The system that takes only the steps `admits` accepts. -/
def restrict (sys : System S E) (admits : S → E → Prop) : System S E where
  init := sys.init
  step s e t := admits s e ∧ sys.step s e t

variable {sys : System S E}

theorem Runs.refl (s : S) : sys.Runs s s := Relation.ReflTransGen.refl

theorem Runs.single {s t : S} {e : E} (h : sys.step s e t) : sys.Runs s t :=
  Relation.ReflTransGen.single ⟨e, h⟩

theorem Runs.trans {s t r : S} (h : sys.Runs s t) (h' : sys.Runs t r) : sys.Runs s r :=
  Relation.ReflTransGen.trans h h'

theorem Reachable.of_init {s : S} (h : sys.init s) : sys.Reachable s := ⟨s, h, Runs.refl s⟩

theorem Reachable.runs {s t : S} (h : sys.Reachable s) (run : sys.Runs s t) : sys.Reachable t := by
  obtain ⟨s₀, hinit, hrun⟩ := h
  exact ⟨s₀, hinit, hrun.trans run⟩

theorem Reachable.step {s t : S} {e : E} (h : sys.Reachable s) (hstep : sys.step s e t) :
    sys.Reachable t :=
  h.runs (Runs.single hstep)

/-- A replay that ends is a run. -/
theorem Runs.of_replay {init : S → Prop} {step : S → E → Option S} {s t : S} {labels : List E}
    (h : replay step s labels = some t) : (ofStep init step).Runs s t := by
  induction labels generalizing s with
  | nil =>
    cases h
    exact Runs.refl _
  | cons e rest ih =>
    obtain ⟨r, hstep, hrest⟩ := Option.bind_eq_some_iff.mp h
    have first : (ofStep init step).Runs s r := Runs.single hstep
    exact first.trans (ih hrest)

/-- A replay whose steps all pass a check that admits them is a restricted run. -/
theorem Runs.of_checked {init : S → Prop} {step : S → E → Option S} {admits : S → E → Prop}
    {check : S → E → Bool} (sound : ∀ s e, check s e = true → admits s e) {s t : S}
    {labels : List E}
    (h : replay (fun s e => if check s e then step s e else none) s labels = some t) :
    ((ofStep init step).restrict admits).Runs s t := by
  have run : (ofStep init fun s e => if check s e then step s e else none).Runs s t :=
    Runs.of_replay h
  refine run.lift id ?_
  rintro s t ⟨e, hstep⟩
  simp only [ofStep, Option.ite_none_right_eq_some] at hstep
  exact ⟨e, sound s e hstep.1, hstep.2⟩

/-- **The invariant rule.** What holds initially and survives each step from a reachable state
holds in every reachable state. -/
theorem Reachable.invariant {I : S → Prop} (hinit : ∀ s, sys.init s → I s)
    (hstep : ∀ s e t, sys.Reachable s → I s → sys.step s e t → I t)
    {s : S} (h : sys.Reachable s) : I s := by
  obtain ⟨s₀, h₀, run⟩ := h
  -- the induction follows the run, and each state on it is itself reachable
  suffices both : sys.Reachable s ∧ I s from both.2
  induction run with
  | refl => exact ⟨.of_init h₀, hinit _ h₀⟩
  | tail _ next ih =>
    obtain ⟨e, he⟩ := next
    exact ⟨ih.1.step he, hstep _ e _ ih.1 ih.2 he⟩

/-- **The run rule.** A reflexive and transitive relation that every step from a reachable state
keeps relates the ends of every run. -/
theorem Reachable.run_rel {R : S → S → Prop} (refl : ∀ s, R s s)
    (trans : ∀ {s t r}, R s t → R t r → R s r)
    (hstep : ∀ s e t, sys.Reachable s → sys.step s e t → R s t)
    {s t : S} (h : sys.Reachable s) (run : sys.Runs s t) : R s t := by
  induction run with
  | refl => exact refl s
  | tail before next ih =>
    obtain ⟨e, he⟩ := next
    exact trans ih (hstep _ e _ (h.runs before) he)

/-- A restricted run is a run. -/
theorem Reachable.of_restrict {admits : S → E → Prop} {s : S}
    (h : (sys.restrict admits).Reachable s) : sys.Reachable s := by
  refine h.invariant (fun s₀ h₀ => .of_init h₀) ?_
  intro s e t _ ih hstep
  exact ih.step hstep.2

/-- A run is restricted by nothing. -/
theorem Reachable.unrestricted {s : S} (h : sys.Reachable s) :
    (sys.restrict fun _ _ => True).Reachable s := by
  refine h.invariant (fun s₀ h₀ => .of_init h₀) ?_
  intro s e t _ ih hstep
  exact ih.step ⟨trivial, hstep⟩

/-- A view of one system's states under which each of its steps is a run of another. -/
structure Simulates (sys : System S E) (abs : System T F) (view : S → T) : Prop where
  init : ∀ s, sys.init s → abs.init (view s)
  step : ∀ s e t, sys.Reachable s → sys.step s e t → abs.Runs (view s) (view t)

/-- The view of a reachable state is reachable. -/
theorem Simulates.reachable {abs : System T F} {view : S → T} (sim : Simulates sys abs view)
    {s : S} (h : sys.Reachable s) : abs.Reachable (view s) := by
  refine h.invariant (I := fun s => abs.Reachable (view s))
    (fun s₀ h₀ => Reachable.of_init (sim.init s₀ h₀)) ?_
  intro s e t hs ih hstep
  exact ih.runs (sim.step s e t hs hstep)

/-- The view of a run is a run. -/
theorem Simulates.runs {abs : System T F} {view : S → T} (sim : Simulates sys abs view)
    {s t : S} (h : sys.Reachable s) (run : sys.Runs s t) : abs.Runs (view s) (view t) :=
  h.run_rel (R := fun s t => abs.Runs (view s) (view t))
    (fun _ => Runs.refl _) Runs.trans sim.step run

/-! ## Observers -/

variable {O : Type y} {init : S → Prop} {step : S → E → Option S} {start : O} {note : O → S → E → O}

/-- The system of an executable step with an observer beside it, who notes something of each step
and has no part in it. -/
def observed (init : S → Prop) (step : S → E → Option S) (start : O) (note : O → S → E → O) :
    System (S × O) E :=
  ofStep (fun x => init x.1 ∧ x.2 = start) fun x e => (step x.1 e).map fun t => (t, note x.2 x.1 e)

theorem observed_step {x y : S × O} {e : E} (h : (observed init step start note).step x e y) :
    step x.1 e = some y.1 ∧ y.2 = note x.2 x.1 e := by
  obtain ⟨t, taken, rfl⟩ := Option.map_eq_some_iff.mp h
  exact ⟨taken, rfl⟩

/-- What is observed is a run. -/
theorem Reachable.of_observed {x : S × O} (h : (observed init step start note).Reachable x) :
    (ofStep init step).Reachable x.1 := by
  refine h.invariant (I := fun x => (ofStep init step).Reachable x.1) ?_ ?_
  · rintro x ⟨first, _⟩
    exact .of_init first
  · intro x e y _ ih taken
    exact ih.step (observed_step taken).1

/-- Every run can be observed. -/
theorem Reachable.observed {s : S} (h : (ofStep init step).Reachable s) :
    ∃ o, (observed init step start note).Reachable (s, o) := by
  refine h.invariant
    (I := fun s => ∃ o, (System.observed init step start note).Reachable (s, o)) ?_ ?_
  · intro s first
    exact ⟨start, .of_init ⟨first, rfl⟩⟩
  · rintro s e t _ ⟨o, reach⟩ taken
    refine ⟨note o s e, reach.step (e := e) ?_⟩
    exact Option.map_eq_some_iff.mpr ⟨t, taken, rfl⟩

end System

end Transition
