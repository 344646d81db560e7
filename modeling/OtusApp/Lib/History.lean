import OtusApp.Lib.Log
import OtusApp.Lib.Rows

/-!
# What has happened in a run

A run with its steps (`System.Path`), so that what holds now can be told of an earlier moment of the
same run. For a machine, the steps say what each program has asked and been answered
(`Machine.Asked`), and a program that is under way, or has returned, is where its code is after
these answers (`Machine.past`).
-/

namespace Transition.System

variable {S E : Type} {sys : System S E}

/-- A run with its steps: the state each of them left, and its label. -/
inductive Path (sys : System S E) (s : S) : List (S × E) → S → Prop
  | nil : Path sys s [] s
  | snoc {steps : List (S × E)} {t u : S} {e : E} (before : Path sys s steps t)
      (step : sys.step t e u) :
    Path sys s (steps ++ [(t, e)]) u

theorem Path.runs {s t : S} {steps : List (S × E)} (h : sys.Path s steps t) : sys.Runs s t := by
  induction h with
  | nil => exact .refl s
  | snoc _ step ih => exact ih.trans (.single step)

/-- The run up to one of its steps. -/
theorem Path.before {s u : S} {steps : List (S × E)} (h : sys.Path s steps u) {k : Nat} {t : S}
    {e : E} (found : steps[k]? = some (t, e)) : sys.Path s (steps.take k) t := by
  induction h with
  | nil => cases found
  | @snoc steps v _ f before step ih =>
    rcases Rows.getElem?_concat found with earlier | ⟨rfl, last⟩
    · rw [List.take_append_of_le_length (Nat.le_of_lt (List.getElem?_eq_some_iff.mp earlier).1)]
      exact ih earlier
    · cases last
      rw [List.take_left]
      exact before

theorem Path.trans {s t u : S} {first rest : List (S × E)} (h : sys.Path s first t)
    (h' : sys.Path t rest u) :
    sys.Path s (first ++ rest) u := by
  induction h' with
  | nil => rwa [List.append_nil]
  | snoc _ step ih =>
    rw [← List.append_assoc]
    exact ih.snoc step

/-- The steps of a replay. -/
def history (step : S → E → Option S) : S → List E → List (S × E)
  | _, [] => []
  | s, e :: rest => (s, e) :: ((step s e).map fun t => history step t rest).getD []

/-- A replay that ends is a run. -/
theorem Path.of_replay {init : S → Prop} {step : S → E → Option S} {s t : S} {labels : List E}
    (h : replay step s labels = some t) : (ofStep init step).Path s (history step s labels) t := by
  induction labels generalizing s with
  | nil =>
    cases h
    exact .nil
  | cons e rest ih =>
    obtain ⟨r, hstep, hrest⟩ := Option.bind_eq_some_iff.mp h
    have first : (ofStep init step).Path s [(s, e)] r := Path.snoc .nil hstep
    have onward : history step s (e :: rest) = [(s, e)] ++ history step r rest := by
      simp only [history, hstep, Option.map_some, Option.getD_some, List.singleton_append]
    rw [onward]
    exact first.trans (ih hrest)

end Transition.System

namespace Program

open Transition

variable {Q E : Type} {R : E → Type} {α β S C B : Type}

namespace Prog

/-- What every call and the end of a program meet, given what it has asked so far. -/
def Along (asks : Log E R → E → Prop) (ends : Log E R → α → Prop) : Log E R → Prog E R α → Prop
  | log, .ret a => ends log a
  | log, .call e k => asks log e ∧ ∀ r, (k r).Along asks ends (log ++ [⟨e, r⟩])

variable {asks : Log E R → E → Prop}

theorem Along.bind {ends : Log E R → β → Prop} {x : Prog E R α} {f : α → Prog E R β} {log : Log E R}
    (h : x.Along asks (fun log a => (f a).Along asks ends log) log) :
    (x >>= f).Along asks ends log := by
  induction x generalizing log with
  | ret a => exact h
  | call e k ih => exact ⟨h.1, fun r => ih r (h.2 r)⟩

theorem Along.mono {ends ends' : Log E R → α → Prop} {x : Prog E R α} {log : Log E R}
    (h : x.Along asks ends log) (weaker : ∀ log a, ends log a → ends' log a) :
    x.Along asks ends' log := by
  induction x generalizing log with
  | ret a => exact weaker log a h
  | call e k ih => exact ⟨h.1, fun r => ih r (h.2 r)⟩

/-- Calls that are fine whatever was asked before, and a value that is. -/
theorem All.along {P : E → Prop} {ends : α → Prop} {x : Prog E R α} (h : x.All P)
    (fine : ∀ log e, P e → asks log e) (returns : x.Logs fun _ a => ends a) (log : Log E R) :
    x.Along asks (fun _ a => ends a) log := by
  induction x generalizing log with
  | ret a => exact returns
  | call e k ih => exact ⟨fine log e h.1, fun r => ih r (h.2 r) (returns r) _⟩

end Prog

namespace Machine

variable (m : Machine Q E R α S C B)

/-- Step `k` of a run answers a call of program `i`. -/
def AskedAt (steps : List (Pool Q E R α S × Move Q C B)) (k i : Nat) (asked : Σ e : E, R e) :
    Prop :=
  ∃ v c q rest t, steps[k]? = some (v, .go i c) ∧ v.procs[i]? = some (q, .call asked.1 rest) ∧
    m.respond v.env (i, q) asked.1 c = some (asked.2, t)

variable {m}

theorem AskedAt.later {steps : List (Pool Q E R α S × Move Q C B)} {k i : Nat}
    {asked : Σ e : E, R e} (h : m.AskedAt steps k i asked)
    (more : List (Pool Q E R α S × Move Q C B)) :
    m.AskedAt (steps ++ more) k i asked := by
  obtain ⟨v, c, q, rest, t, found, runs, answers⟩ := h
  have bound := (List.getElem?_eq_some_iff.mp found).1
  exact ⟨v, c, q, rest, t, by rw [List.getElem?_append_left bound, found], runs, answers⟩

/-- **Where each program is.** It has come there by the answers it was given in this run. -/
theorem past {init : S → Prop} {asks : Q → Log E R → E → Prop} {ends : Q → Log E R → α → Prop}
    (handlers : ∀ q, (m.handler q).Along (asks q) (ends q) []) {w₀ w : Pool Q E R α S}
    {steps : List (Pool Q E R α S × Move Q C B)} (start : (m.system init).init w₀)
    (path : (m.system init).Path w₀ steps w) :
    ∀ (i : Nat) q p, w.procs[i]? = some (q, p) →
      ∃ log, p.Along (asks q) (ends q) log ∧ ∀ asked ∈ log, ∃ k, m.AskedAt steps k i asked := by
  induction path with
  | nil =>
    obtain ⟨_, none, _⟩ := start
    intro i q p runs
    rw [none] at runs
    cases runs
  | @snoc steps v w mv before step ih =>
    -- a program that the step does not touch has asked nothing more
    have same : ∀ (i : Nat) q p, v.procs[i]? = some (q, p) →
        ∃ log, p.Along (asks q) (ends q) log ∧ ∀ asked ∈ log, ∃ k,
        m.AskedAt (steps ++ [(v, mv)]) k i asked := by
      intro i q p runs
      obtain ⟨log, along, answered⟩ := ih i q p runs
      refine ⟨log, along, fun asked mem => ?_⟩
      obtain ⟨k, entry⟩ := answered asked mem
      exact ⟨k, entry.later _⟩
    intro i q p runs
    cases stepped step with
    | arrive taken =>
      rcases Rows.getElem?_concat runs with old | ⟨_, new⟩
      · exact same i q p old
      · cases new
        exact ⟨[], handlers _, nofun⟩
    | @go j c q' e rest r env asking answers =>
      by_cases mine : j = i
      · subst mine
        rw [List.getElem?_set_self (List.getElem?_eq_some_iff.mp asking).1] at runs
        cases runs
        obtain ⟨log, along, answered⟩ := same j q _ asking
        refine ⟨log ++ [⟨e, r⟩], along.2 r, fun asked mem => ?_⟩
        rcases List.mem_append.mp mem with mem | mem
        · exact answered asked mem
        · cases List.mem_singleton.mp mem
          exact ⟨steps.length, v, c, q, rest, env, List.getElem?_concat_length, asking, answers⟩
      · rw [List.getElem?_set_ne mine] at runs
        exact same i q p runs
    | background moves => exact same i q p runs

end Machine

end Program
