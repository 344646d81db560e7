import OtusApp.Lib.Rows
import OtusApp.Lib.System
import Mathlib.Tactic.ByContra

/-!
# Programs over a shared environment

A program returns, or makes a call and goes on with the answer. The calls are left without a
meaning: a `Machine` gives them one over a state of its own, the environment, and runs any number of
programs over it, one call of one of them at a time, with steps of the environment in between.

What a program guarantees is proved by symbolic execution (`Prog.Safe`), against the moves of the
environment that may fall between two of its calls. Four rules lift it to whole runs. What every
call of every handler meets is met by whatever is left of any running program
(`Machine.asks_given`). With any number of programs at once, each keeps its guarantee against a
relation that every step keeps (`Machine.safe`); and where that relation holds only because of what
the programs ask of the environment, the guarantee says so and both are proved together
(`Machine.guards`). When a request arrives only after the last one was answered, the environment
moves by itself alone (`Machine.oneByOne_situation`).
-/

namespace Program

open Transition

/-- A program: it returns, or it makes the call `e` and goes on with the answer. -/
inductive Prog (E : Type) (R : E → Type) (α : Type)
  | ret (a : α)
  | call (e : E) (k : R e → Prog E R α)

namespace Prog

variable {E : Type} {R : E → Type} {α β S : Type}

/-- One program after another. -/
def bind : Prog E R α → (α → Prog E R β) → Prog E R β
  | .ret a, f => f a
  | .call e k, f => .call e fun r => (k r).bind f

instance : Monad (Prog E R) where
  pure := .ret
  bind := bind

/-- The program that makes one call. -/
def ask (e : E) : Prog E R (R e) := .call e .ret

@[simp] theorem pure_eq (a : α) : (pure a : Prog E R α) = .ret a := rfl

@[simp] theorem ret_bind (a : α) (f : α → Prog E R β) : (Prog.ret a >>= f) = f a := rfl

@[simp] theorem call_bind (e : E) (k : R e → Prog E R α) (f : α → Prog E R β) :
    (Prog.call e k >>= f) = .call e fun r => k r >>= f := rfl

@[simp] theorem ask_bind (e : E) (f : R e → Prog E R β) : (ask e >>= f) = .call e f := rfl

theorem bind_assoc {γ : Type} (x : Prog E R α) (f : α → Prog E R β) (g : β → Prog E R γ) :
    (x >>= f >>= g) = x >>= fun a => f a >>= g := by
  induction x with
  | ret a => rfl
  | call e k ih => exact congrArg (Prog.call e) (funext ih)

/-- The program over a larger interface, of which its calls are a part. -/
def lift {E' : Type} {R' : E' → Type} (part : E → E') (answer : ∀ e, R' (part e) → R e) :
    Prog E R α → Prog E' R' α
  | .ret a => .ret a
  | .call e k => .call (part e) fun r => (k (answer e r)).lift part answer

theorem lift_bind {E' : Type} {R' : E' → Type} (part : E → E') (answer : ∀ e, R' (part e) → R e)
    (x : Prog E R α) (f : α → Prog E R β) :
    (x >>= f).lift part answer = x.lift part answer >>= fun a => (f a).lift part answer := by
  induction x with
  | ret a => rfl
  | call e k ih => exact congrArg (Prog.call (part e)) (funext fun r => ih (answer e r))

/-- What the program returns when its calls find the worlds `ws`, one after another; `none` where a
call has no answer, or no world is left. -/
def answered {W : Type} (answer : W → (e : E) → Option (R e)) : Prog E R α → List W → Option α
  | .ret a, _ => some a
  | .call _ _, [] => none
  | .call e k, w :: ws => (answer w e).bind fun r => (k r).answered answer ws

theorem answered_call {W : Type} {answer : W → (e : E) → Option (R e)} {w : W} {e : E} {r : R e}
    (h : answer w e = some r) (k : R e → Prog E R α) (ws : List W) :
    (Prog.call e k).answered answer (w :: ws) = (k r).answered answer ws := by
  rw [answered, h]
  rfl

/-- Every call the program can make meets `P`, whatever the answers. -/
def All (P : E → Prop) : Prog E R α → Prop
  | .ret _ => True
  | .call e k => P e ∧ ∀ r, (k r).All P

@[simp] theorem all_ret (P : E → Prop) (a : α) : (Prog.ret a : Prog E R α).All P := trivial

@[simp] theorem all_call (P : E → Prop) (e : E) (k : R e → Prog E R α) :
    (Prog.call e k).All P ↔ P e ∧ ∀ r, (k r).All P := Iff.rfl

theorem all_of_forall {P : E → Prop} (h : ∀ e, P e) (x : Prog E R α) : x.All P := by
  induction x with
  | ret a => trivial
  | call e k ih => exact ⟨h e, ih⟩

theorem all_bind {P : E → Prop} {x : Prog E R α} {f : α → Prog E R β} (hx : x.All P)
    (hf : ∀ a, (f a).All P) : (x >>= f).All P := by
  induction x with
  | ret a => exact hf a
  | call e k ih => exact ⟨hx.1, fun r => ih r (hx.2 r)⟩

theorem All.mono {P P' : E → Prop} {x : Prog E R α} (h : x.All P) (weaker : ∀ e, P e → P' e) :
    x.All P' := by
  induction x with
  | ret a => trivial
  | call e k ih => exact ⟨weaker e h.1, fun r => ih r (h.2 r)⟩

theorem all_lift {E' : Type} {R' : E' → Type} {part : E → E'} {answer : ∀ e, R' (part e) → R e}
    {P : E' → Prop} {x : Prog E R α} (h : x.All fun e => P (part e)) :
    (x.lift part answer).All P := by
  induction x with
  | ret a => trivial
  | call e k ih => exact ⟨h.1, fun r => ih (answer e r) (h.2 (answer e r))⟩

/-- Every call the program can make meets `P`, as long as the answers are among `given`. -/
def AllGiven (given : (e : E) → R e → Prop) (P : E → Prop) : Prog E R α → Prop
  | .ret _ => True
  | .call e k => P e ∧ ∀ r, given e r → (k r).AllGiven given P

theorem All.given {given : (e : E) → R e → Prop} {P P' : E → Prop} {x : Prog E R α} (h : x.All P)
    (weaker : ∀ e, P e → P' e) : x.AllGiven given P' := by
  induction x with
  | ret a => trivial
  | call e k ih => exact ⟨weaker e h.1, fun r _ => ih r (h.2 r)⟩

theorem allGiven_iff {P : E → Prop} {x : Prog E R α} :
    x.AllGiven (fun _ _ => True) P ↔ x.All P := by
  induction x with
  | ret a => exact Iff.rfl
  | call e k ih =>
    exact and_congr_right fun _ => forall_congr' fun r => ⟨fun h => (ih r).mp (h trivial),
      fun h _ => (ih r).mpr h⟩

/-- Under some answers the program makes the call `e`. -/
inductive Makes (e : E) : Prog E R α → Prop
  | now (k : R e → Prog E R α) : Makes e (.call e k)
  | later (e' : E) (k : R e' → Prog E R α) (r : R e') (rest : Makes e (k r)) : Makes e (.call e' k)

theorem Makes.meets {P : E → Prop} {e : E} {x : Prog E R α} (h : Makes e x) (all : x.All P) :
    P e := by
  induction h with
  | now k => exact all.1
  | later e' k r _ ih => exact ih (all.2 r)

/-- Symbolic execution: under the answers `answer` allows, and with the environment moving by `rely`
before each call, the program returns only with `post`. -/
def Safe (rely : S → S → Prop) (answer : S → (e : E) → R e → S → Prop) (post : α → S → Prop) :
    Prog E R α → S → Prop
  | .ret a, s => post a s
  | .call e k, s => ∀ s₁, rely s s₁ → ∀ r s₂, answer s₁ e r s₂ → (k r).Safe rely answer post s₂

variable {rely : S → S → Prop} {answer : S → (e : E) → R e → S → Prop} {post : α → S → Prop}

theorem Safe.mono {post' : α → S → Prop} (weaker : ∀ a s, post a s → post' a s) {x : Prog E R α}
    {s : S} (h : x.Safe rely answer post s) : x.Safe rely answer post' s := by
  induction x generalizing s with
  | ret a => exact weaker a s h
  | call e k ih =>
    intro s₁ moved r s₂ answered
    exact ih r (h s₁ moved r s₂ answered)

/-- The rule of sequential composition. -/
theorem Safe.bind {mid : α → S → Prop} {post : β → S → Prop} {x : Prog E R α} {f : α → Prog E R β}
    {s : S} (first : x.Safe rely answer mid s)
    (second : ∀ a s, mid a s → (f a).Safe rely answer post s) :
    (x >>= f).Safe rely answer post s := by
  induction x generalizing s with
  | ret a => exact second a s first
  | call e k ih =>
    intro s₁ moved r s₂ answered
    exact ih r (first s₁ moved r s₂ answered)

/-- What the environment and every answer keep, a program keeps. -/
theorem safe_of_kept {J : S → Prop} (moves : ∀ s t, rely s t → J s → J t)
    (answers : ∀ s e (r : R e) t, answer s e r t → J s → J t) (x : Prog E R α) {s : S} (h : J s) :
    x.Safe rely answer (fun _ t => J t) s := by
  induction x generalizing s with
  | ret a => exact h
  | call e k ih =>
    intro s₁ moved r s₂ answered
    exact ih r (answers s₁ e r s₂ answered (moves s s₁ moved h))

/-- Of a program nothing is asked about. -/
theorem safe_true (x : Prog E R α) (s : S) : x.Safe rely answer (fun _ _ => True) s :=
  safe_of_kept (J := fun _ => True) (fun _ _ _ _ => trivial) (fun _ _ _ _ _ _ => trivial) x trivial

/-- A guarantee that the moves of the environment keep. -/
theorem Safe.later {x : Prog E R α} {s t : S} (h : x.Safe rely answer post s)
    (trans : ∀ s t r, rely s t → rely t r → rely s r)
    (stable : ∀ a s t, post a s → rely s t → post a t) (move : rely s t) :
    x.Safe rely answer post t := by
  cases x with
  | ret a => exact stable a s t h move
  | call e k => exact fun s₁ next => h s₁ (trans s t s₁ move next)

/-- A program that has yet to make a call does not notice the environment's move. -/
theorem Safe.moved {e : E} {k : R e → Prog E R α}
    (trans : ∀ {s t r}, rely s t → rely t r → rely s r) {s t : S} (move : rely s t)
    (h : (Prog.call e k).Safe rely answer post s) :
    (Prog.call e k).Safe rely answer post t :=
  fun s₁ later => h s₁ (trans move later)

/-- Symbolic execution in which every call besides meets `asks` at the moment it is made. -/
def Guards (rely : S → S → Prop) (answer : S → (e : E) → R e → S → Prop) (asks : S → E → Prop)
    (post : α → S → Prop) : Prog E R α → S → Prop
  | .ret a, s => post a s
  | .call e k, s => ∀ s₁, rely s s₁ →
    asks s₁ e ∧ ∀ r s₂, answer s₁ e r s₂ → (k r).Guards rely answer asks post s₂

variable {asks : S → E → Prop}

/-- The rule of sequential composition, with what is asked on the way. -/
theorem Guards.bind {mid : α → S → Prop} {post : β → S → Prop} {x : Prog E R α}
    {f : α → Prog E R β} {s : S} (first : x.Guards rely answer asks mid s)
    (second : ∀ a s, mid a s → (f a).Guards rely answer asks post s) :
    (x >>= f).Guards rely answer asks post s := by
  induction x generalizing s with
  | ret a => exact second a s first
  | call e k ih =>
    intro s₁ moved
    obtain ⟨asked, goes⟩ := first s₁ moved
    exact ⟨asked, fun r s₂ answered => ih r (goes r s₂ answered)⟩

/-! ### By itself -/

variable {C : Type}

/-- The program by itself over an environment, each call answered as a choice says; `none` where a
call has no answer, or no choice is left. -/
def run (respond : S → (e : E) → C → Option (R e × S)) : Prog E R α → S → List C → Option (α × S)
  | .ret a, s, _ => some (a, s)
  | .call _ _, _, [] => none
  | .call e k, s, c :: cs => (respond s e c).bind fun (r, t) => (k r).run respond t cs

variable {respond : S → (e : E) → C → Option (R e × S)}

theorem run_call {e : E} {k : R e → Prog E R α} {s u : S} {c : C} {cs : List C} {a : α}
    (h : (Prog.call e k).run respond s (c :: cs) = some (a, u)) :
    ∃ r t, respond s e c = some (r, t) ∧ (k r).run respond t cs = some (a, u) := by
  obtain ⟨⟨r, t⟩, answers, rest⟩ := Option.bind_eq_some_iff.mp h
  exact ⟨r, t, answers, rest⟩

theorem run_answered {e : E} {s t : S} {c : C} {r : R e} (h : respond s e c = some (r, t))
    (k : R e → Prog E R α) (cs : List C) :
    (Prog.call e k).run respond s (c :: cs) = (k r).run respond t cs := by
  rw [run, h]
  rfl

/-- What is proved by symbolic execution holds of the program by itself. -/
theorem Safe.run {x : Prog E R α} {s t : S} {cs : List C} {a : α}
    (h : x.Safe Eq (fun s e r t => ∃ c, respond s e c = some (r, t)) post s)
    (runs : x.run respond s cs = some (a, t)) : post a t := by
  induction x generalizing s cs with
  | ret b =>
    cases runs
    exact h
  | call e k ih =>
    cases cs with
    | nil => cases runs
    | cons c cs =>
      obtain ⟨r, u, answers, rest⟩ := run_call runs
      exact ih r (h s rfl r u ⟨c, answers⟩) rest

/-- What every answer to an admitted call keeps, the program by itself keeps. -/
theorem All.run {P : E → Prop} {x : Prog E R α} (all : x.All P) {J : S → Prop}
    (keeps : ∀ s e c r t, P e → respond s e c = some (r, t) → J s → J t) {s t : S} {cs : List C}
    {a : α} (runs : x.run respond s cs = some (a, t)) (h : J s) : J t := by
  induction x generalizing s cs with
  | ret b =>
    cases runs
    exact h
  | call e k ih =>
    cases cs with
    | nil => cases runs
    | cons c cs =>
      obtain ⟨r, u, answers, rest⟩ := run_call runs
      exact ih r (all.2 r) rest (keeps s e c r u all.1 answers h)

/-- What is left of the program after its first calls are answered as the choices say, and the
environment then; `none` where a call has no such answer, or none is made. -/
def after (respond : S → (e : E) → C → Option (R e × S)) :
    Prog E R α → S → List C → Option (Prog E R α × S)
  | x, s, [] => some (x, s)
  | .ret _, _, _ :: _ => none
  | .call e k, s, c :: cs => (respond s e c).bind fun (r, t) => (k r).after respond t cs

theorem after_answered {e : E} {s t : S} {c : C} {r : R e} (h : respond s e c = some (r, t))
    (k : R e → Prog E R α) (cs : List C) :
    (Prog.call e k).after respond s (c :: cs) = (k r).after respond t cs := by
  rw [after, h]
  rfl

/-- The first call, and the rest. -/
theorem after_cons {x y : Prog E R α} {s u : S} {c : C} {cs : List C}
    (h : x.after respond s (c :: cs) = some (y, u)) :
    ∃ e k r t, x = .call e k ∧ respond s e c = some (r, t) ∧
    (k r).after respond t cs = some (y, u) := by
  cases x with
  | ret a => cases h
  | call e k =>
    obtain ⟨⟨r, t⟩, answers, rest⟩ := Option.bind_eq_some_iff.mp h
    exact ⟨e, k, r, t, rfl, answers, rest⟩

theorem after_append (x : Prog E R α) (s : S) (cs ds : List C) :
    x.after respond s (cs ++ ds) = (x.after respond s cs).bind fun (y, t) =>
      y.after respond t ds := by
  induction cs generalizing x s with
  | nil =>
    rw [List.nil_append, after]
    rfl
  | cons c cs ih =>
    cases x with
    | ret a => rfl
    | call e k =>
      cases answers : respond s e c with
      | none => simp only [List.cons_append, after, answers, Option.bind_none]
      | some got =>
        simp only [List.cons_append, after, answers, Option.bind_some]
        exact ih (k got.1) got.2

theorem after_bind {x y : Prog E R α} {s t : S} {cs : List C}
    (h : x.after respond s cs = some (y, t)) (f : α → Prog E R β) :
    (x >>= f).after respond s cs = some (y >>= f, t) := by
  induction cs generalizing x s with
  | nil =>
    rw [after] at h ⊢
    cases h
    rfl
  | cons c cs ih =>
    obtain ⟨e, k, r, u, rfl, answers, rest⟩ := after_cons h
    rw [call_bind, after_answered answers]
    exact ih rest

/-- One program is what is left of another once some of its calls have ended as `c` says. -/
def Goes (respond : S → (e : E) → C → Option (R e × S)) (c : C) (x y : Prog E R α) : Prop :=
  ∀ s, ∃ n t, x.after respond s (List.replicate n c) = some (y, t)

theorem Goes.refl (c : C) (x : Prog E R α) : Goes respond c x x := by
  intro s
  exact ⟨0, s, by rw [List.replicate_zero, Prog.after]⟩

theorem Goes.call {e : E} {c : C} {r : R e} {k : R e → Prog E R α} {y : Prog E R α}
    (answers : ∀ s, ∃ t, respond s e c = some (r, t)) (h : Goes respond c (k r) y) :
    Goes respond c (.call e k) y := by
  intro s
  obtain ⟨t, answered⟩ := answers s
  obtain ⟨n, u, rest⟩ := h t
  refine ⟨n + 1, u, ?_⟩
  rw [List.replicate_succ, after_answered answered]
  exact rest

/-- What is left of a program goes on. -/
theorem Goes.after {x y z : Prog E R α} {s t : S} {c : C} {cs : List C} (h : Goes respond c y z)
    (runs : x.after respond s cs = some (y, t)) : ∃ ds u, x.after respond s ds = some (z, u) := by
  obtain ⟨n, u, rest⟩ := h t
  refine ⟨cs ++ List.replicate n c, u, ?_⟩
  rw [after_append, runs]
  exact rest

/-- What every answer to an admitted call keeps is kept at any time. -/
theorem All.after {P : E → Prop} {x y : Prog E R α} (all : x.All P) {J : S → Prop}
    (keeps : ∀ s e c r t, P e → respond s e c = some (r, t) → J s → J t) {s t : S} {cs : List C}
    (runs : x.after respond s cs = some (y, t)) (h : J s) : J t := by
  induction cs generalizing x s with
  | nil =>
    rw [Prog.after] at runs
    cases runs
    exact h
  | cons c cs ih =>
    obtain ⟨e, k, r, u, rfl, answers, rest⟩ := after_cons runs
    exact ih (all.2 r) rest (keeps s e c r u all.1 answers h)

/-- The program by itself over an environment that answers every call. -/
def exec (reply : S → (e : E) → R e × S) : Prog E R α → S → α × S
  | .ret a, s => (a, s)
  | .call e k, s => (k (reply s e).1).exec reply (reply s e).2

theorem exec_bind (reply : S → (e : E) → R e × S) (x : Prog E R α) (f : α → Prog E R β) (s : S) :
    (x >>= f).exec reply s = (f (x.exec reply s).1).exec reply (x.exec reply s).2 := by
  induction x generalizing s with
  | ret a => rfl
  | call e k ih => exact ih (reply s e).1 (reply s e).2

/-- What lies between the states before and after each call lies between those before and after the
program. -/
theorem exec_related {reply : S → (e : E) → R e × S} {J : S → S → Prop} (refl : ∀ s, J s s)
    (trans : ∀ s t u, J s t → J t u → J s u) (step : ∀ s e, J s (reply s e).2) (x : Prog E R α)
    (s : S) :
    J s (x.exec reply s).2 := by
  induction x generalizing s with
  | ret a => exact refl s
  | call e k ih => exact trans _ _ _ (step s e) (ih (reply s e).1 (reply s e).2)

theorem Guards.later {x : Prog E R α} {s t : S} (h : x.Guards rely answer asks post s)
    (trans : ∀ s t r, rely s t → rely t r → rely s r)
    (stable : ∀ a s t, post a s → rely s t → post a t) (move : rely s t) :
    x.Guards rely answer asks post t := by
  cases x with
  | ret a => exact stable a s t h move
  | call e k => exact fun s₁ next => h s₁ (trans s t s₁ move next)

end Prog

/-- What runs programs: the handler of each request, how the environment takes a request in, answers
a call of a running one, and moves by itself. A choice resolves what the answer leaves open. -/
structure Machine (Q E : Type) (R : E → Type) (α S C B : Type) where
  handler : Q → Prog E R α
  arrive : S → Q → Option S
  respond : S → Nat × Q → (e : E) → C → Option (R e × S)
  background : S → B → Option S

/-- The environment and the requests so far, each with what is left of its program. `answered` is
kept besides: what each request returned, and the environment at that moment, newest first. -/
structure Pool (Q E : Type) (R : E → Type) (α S : Type) where
  env : S
  procs : List (Q × Prog E R α)
  answered : List (Q × α × S)

/-- One step: a request arrives, the program of one makes its next call, or the environment
moves. -/
inductive Move (Q C B : Type)
  | arrive (q : Q)
  | go (i : Nat) (c : C)
  | background (b : B)

namespace Pool

variable {Q E : Type} {R : E → Type} {α S : Type}

/-- The record of a program that has returned. -/
def note (q : Q) (p : Prog E R α) (s : S) : List (Q × α × S) :=
  match p with
  | .ret a => [(q, a, s)]
  | .call _ _ => []

/-- Every request has been answered. -/
def Idle (w : Pool Q E R α S) : Prop := ∀ (i : Nat) q e k, w.procs[i]? ≠ some (q, .call e k)

/-- Whether a program has returned. -/
def returned : Prog E R α → Bool
  | .ret _ => true
  | .call _ _ => false

theorem idle_of_returned {w : Pool Q E R α S} (h : w.procs.all (fun p => returned p.2) = true) :
    w.Idle := by
  intro i q e k runs
  have done := List.all_eq_true.mp h _ (List.mem_of_getElem? runs)
  cases done

/-- At most request `i` is still without an answer. -/
def Only (procs : List (Q × Prog E R α)) (i : Nat) : Prop :=
  ∀ (j : Nat) q e k, procs[j]? = some (q, .call e k) → j = i

/-- A request that arrives when all are answered. -/
theorem only_append {w : Pool Q E R α S} (idle : w.Idle) (entry : Q × Prog E R α) :
    Only (w.procs ++ [entry]) w.procs.length := by
  intro j q e k runs
  rcases Rows.getElem?_concat runs with earlier | ⟨last, _⟩
  · exact absurd earlier (idle j q e k)
  · exact last

/-- The step of the only request without an answer. -/
theorem Only.set {procs : List (Q × Prog E R α)} {i : Nat} (only : Only procs i)
    (entry : Q × Prog E R α) : Only (procs.set i entry) i := by
  intro j q e k runs
  by_contra other
  rw [List.getElem?_set_ne (Ne.symm other)] at runs
  exact other (only j q e k runs)

end Pool

namespace Machine

variable {Q E : Type} {R : E → Type} {α S C B : Type} (m : Machine Q E R α S C B)

/-- The step of the machine. -/
def step (w : Pool Q E R α S) : Move Q C B → Option (Pool Q E R α S)
  | .arrive q =>
    (m.arrive w.env q).map fun env =>
      ⟨env, w.procs ++ [(q, m.handler q)], Pool.note q (m.handler q) env ++ w.answered⟩
  | .go i c =>
    match w.procs[i]? with
    | some (q, .call e k) =>
      (m.respond w.env (i, q) e c).map fun (r, env) =>
        ⟨env, w.procs.set i (q, k r), Pool.note q (k r) env ++ w.answered⟩
    | _ => none
  | .background b => (m.background w.env b).map fun env => { w with env := env }

/-- The machine as a transition system. -/
def system (init : S → Prop) : System (Pool Q E R α S) (Move Q C B) :=
  System.ofStep (fun w => init w.env ∧ w.procs = [] ∧ w.answered = []) m.step

/-- What a step of the machine is. -/
inductive Stepped (w : Pool Q E R α S) : Move Q C B → Pool Q E R α S → Prop
  | arrive {q : Q} {env : S} (taken : m.arrive w.env q = some env) : Stepped w (.arrive q)
      ⟨env, w.procs ++ [(q, m.handler q)], Pool.note q (m.handler q) env ++ w.answered⟩
  | go {i : Nat} {c : C} {q : Q} {e : E} {k : R e → Prog E R α} {r : R e} {env : S}
      (runs : w.procs[i]? = some (q, .call e k))
      (answers : m.respond w.env (i, q) e c = some (r, env)) : Stepped w (.go i c)
      ⟨env, w.procs.set i (q, k r), Pool.note q (k r) env ++ w.answered⟩
  | background {b : B} {env : S} (moves : m.background w.env b = some env) :
      Stepped w (.background b) { w with env := env }

variable {m}

theorem stepped {w w' : Pool Q E R α S} {mv : Move Q C B} (h : m.step w mv = some w') :
    m.Stepped w mv w' := by
  cases mv with
  | arrive q =>
    obtain ⟨env, taken, rfl⟩ := Option.map_eq_some_iff.mp h
    exact .arrive taken
  | go i c =>
    simp only [step] at h
    split at h
    · next q e k runs =>
      obtain ⟨⟨r, env⟩, answers, rfl⟩ := Option.map_eq_some_iff.mp h
      exact .go runs answers
    · cases h
  | background b =>
    obtain ⟨env, moves, rfl⟩ := Option.map_eq_some_iff.mp h
    exact .background moves

/-- **What is asked.** If every call of each handler meets `P`, as long as its answers are those the
machine gives, so does every call that is left of any running program. -/
theorem asks_given {init : S → Prop} {given : (e : E) → R e → Prop} {P : Q → E → Prop}
    (honest : ∀ s caller e c r t, m.respond s caller e c = some (r, t) → given e r)
    (all : ∀ q, (m.handler q).AllGiven given (P q)) {w : Pool Q E R α S}
    (h : (m.system init).Reachable w) : ∀ q p, (q, p) ∈ w.procs → p.AllGiven given (P q) := by
  refine h.invariant (I := fun w => ∀ q p, (q, p) ∈ w.procs → p.AllGiven given (P q)) ?_ ?_
  · intro w start q p mem
    rw [start.2.1] at mem
    cases mem
  · intro w mv w' _ ih hstep q p mem
    cases stepped hstep with
    | arrive taken =>
      rcases List.mem_append.mp mem with old | new
      · exact ih q p old
      · cases List.mem_singleton.mp new
        exact all q
    | go runs answers =>
      rcases List.mem_or_eq_of_mem_set mem with old | new
      · exact ih q p old
      · cases new
        exact (ih _ _ (List.mem_of_getElem? runs)).2 _ (honest _ _ _ _ _ _ answers)
    | background moves => exact ih q p mem

/-- What is asked whatever the answers. -/
theorem asks {init : S → Prop} {P : Q → E → Prop} (all : ∀ q, (m.handler q).All (P q))
    {w : Pool Q E R α S} (h : (m.system init).Reachable w) :
    ∀ q p, (q, p) ∈ w.procs → p.All (P q) := by
  intro q p mem
  refine Prog.allGiven_iff.mp (asks_given (fun _ _ _ _ _ _ _ => trivial) (fun q => ?_) h q p mem)
  exact Prog.allGiven_iff.mpr (all q)

/-- **What is kept.** What each admitted step keeps of the environment and of the program that makes
it holds of the environment and of all programs along every run. -/
theorem kept {init : S → Prop} {admits : Pool Q E R α S → Move Q C B → Prop} (I : S → Prop)
    (P : Q → Prog E R α → Prop) (start : ∀ s, init s → I s)
    (arrives : ∀ w q t, admits w (.arrive q) → I w.env → m.arrive w.env q = some t →
      I t ∧ P q (m.handler q))
    (goes : ∀ w i c q e k r t, admits w (.go i c) → I w.env → P q (.call e k) →
      m.respond w.env (i, q) e c = some (r, t) → I t ∧ P q (k r))
    (moves : ∀ w b t, admits w (.background b) → I w.env → m.background w.env b = some t → I t)
    {w : Pool Q E R α S} (h : ((m.system init).restrict admits).Reachable w) :
    I w.env ∧ ∀ q p, (q, p) ∈ w.procs → P q p := by
  refine h.invariant (I := fun w => I w.env ∧ ∀ q p, (q, p) ∈ w.procs → P q p) ?_ ?_
  · rintro w ⟨begins, none, _⟩
    refine ⟨start _ begins, fun q p mem => ?_⟩
    rw [none] at mem
    cases mem
  · rintro w mv w' _ ⟨env, progs⟩ ⟨admitted, hstep⟩
    cases stepped hstep with
    | arrive taken =>
      obtain ⟨env', first⟩ := arrives _ _ _ admitted env taken
      refine ⟨env', fun q p mem => ?_⟩
      rcases List.mem_append.mp mem with old | new
      · exact progs q p old
      · cases List.mem_singleton.mp new
        exact first
    | go runs answers =>
      obtain ⟨env', next⟩ :=
        goes _ _ _ _ _ _ _ _ admitted env (progs _ _ (List.mem_of_getElem? runs)) answers
      refine ⟨env', fun q p mem => ?_⟩
      rcases List.mem_or_eq_of_mem_set mem with old | new
      · exact progs q p old
      · cases new
        exact next
    | background moved => exact ⟨moves _ _ _ admitted env moved, progs⟩

variable (m)

/-- The machine that answers a call only where `admits` says so. -/
def only (admits : S → Nat × Q → E → C → Bool) : Machine Q E R α S C B :=
  { m with respond := fun s caller e c =>
    if admits s caller e c then m.respond s caller e c else none }

variable {m}

theorem respond_only {admits : S → Nat × Q → E → C → Bool} {s t : S} {caller : Nat × Q} {e : E}
    {c : C} {r : R e} : (m.only admits).respond s caller e c = some (r, t) ↔
      admits s caller e c = true ∧ m.respond s caller e c = some (r, t) :=
  Option.ite_none_right_eq_some

/-- A request keeps its place. -/
theorem request_kept {w w' : Pool Q E R α S} {mv : Move Q C B} (h : m.step w mv = some w') {i : Nat}
    {q : Q} {p : Prog E R α} (runs : w.procs[i]? = some (q, p)) :
    ∃ p', w'.procs[i]? = some (q, p') := by
  have hi : i < w.procs.length := (List.getElem?_eq_some_iff.mp runs).1
  cases stepped h with
  | arrive taken => exact ⟨p, by rw [List.getElem?_append_left hi, runs]⟩
  | @go j c q' e k r env runs' answers =>
    by_cases mine : j = i
    · subst mine
      cases runs.symm.trans runs'
      exact ⟨k r, List.getElem?_set_self hi⟩
    · exact ⟨p, by rw [List.getElem?_set_ne mine, runs]⟩
  | background moves => exact ⟨p, runs⟩

/-- What has returned stays. -/
theorem returned_kept {w w' : Pool Q E R α S} {mv : Move Q C B} (h : m.step w mv = some w') {q : Q}
    {a : α} (returned : (q, .ret a) ∈ w.procs) : (q, .ret a) ∈ w'.procs := by
  obtain ⟨i, entry⟩ := List.getElem?_of_mem returned
  have hi : i < w.procs.length := (List.getElem?_eq_some_iff.mp entry).1
  cases stepped h with
  | arrive taken => exact List.mem_append_left _ returned
  | @go j c q' e k r env runs answers =>
    by_cases mine : j = i
    · subst mine
      cases entry.symm.trans runs
    · refine List.mem_of_getElem? (i := i) ?_
      rw [List.getElem?_set_ne mine, entry]
  | background moves => exact returned

/-- A request was there before, or it has just arrived. -/
theorem request_new {w w' : Pool Q E R α S} {mv : Move Q C B} (h : m.step w mv = some w') {q : Q}
    {p : Prog E R α} (mem : (q, p) ∈ w'.procs) : (∃ p', (q, p') ∈ w.procs) ∨ mv = .arrive q := by
  cases stepped h with
  | arrive taken =>
    rcases List.mem_append.mp mem with old | new
    · exact .inl ⟨p, old⟩
    · cases List.mem_singleton.mp new
      exact .inr rfl
  | go runs answers =>
    rcases List.mem_or_eq_of_mem_set mem with old | new
    · exact .inl ⟨p, old⟩
    · cases new
      exact .inl ⟨_, List.mem_of_getElem? runs⟩
  | background moves => exact .inl ⟨p, mem⟩

/-! ## Any number of requests at once -/

variable (m)

/-- The answers to the calls of one request, in an environment with `I`. -/
def answersIn (I : S → Prop) (caller : Nat × Q) (s : S) (e : E) (r : R e) (t : S) : Prop :=
  I s ∧ ∃ c, m.respond s caller e c = some (r, t)

variable {m}

/-- **Interference.** If each handler keeps its guarantee against `rely`, and every step of the
machine is one of its moves, whatever is left of a program keeps it. -/
theorem safe {init : S → Prop} (I : S → Prop) (rely : S → S → Prop) (post : Q → α → S → Prop)
    (inv : ∀ w, (m.system init).Reachable w → I w.env) (refl : ∀ s, rely s s)
    (trans : ∀ s t r, rely s t → rely t r → rely s r)
    (moves : ∀ w mv w', (m.system init).Reachable w → m.step w mv = some w' → rely w.env w'.env)
    (stable : ∀ q a s t, post q a s → rely s t → post q a t)
    (triple : ∀ i q s t, I s → m.arrive s q = some t →
      (m.handler q).Safe rely (m.answersIn I (i, q)) (post q) t)
    {w : Pool Q E R α S} (h : (m.system init).Reachable w) :
    ∀ (i : Nat) q p, w.procs[i]? = some (q, p) →
      p.Safe rely (m.answersIn I (i, q)) (post q) w.env := by
  refine h.invariant (I := fun w => ∀ (i : Nat) q p, w.procs[i]? = some (q, p) →
    p.Safe rely (m.answersIn I (i, q)) (post q) w.env) ?_ ?_
  · rintro w ⟨_, none, _⟩ i q p runs
    rw [none] at runs
    cases runs
  · intro w mv w' reached ih hstep i q p runs
    have move := moves w mv w' reached hstep
    cases stepped hstep with
    | @arrive q' env taken =>
      rcases Rows.getElem?_concat runs with earlier | ⟨_, last⟩
      · exact (ih i q p earlier).later trans (stable q) move
      · cases last
        exact triple i q w.env env (inv w reached) taken
    | @go j c q' e k r env runs' answers =>
      by_cases mine : j = i
      · subst mine
        have hj : j < w.procs.length := (List.getElem?_eq_some_iff.mp runs').1
        rw [List.getElem?_set_self hj] at runs
        cases runs
        exact ih j q _ runs' w.env (refl _) r env ⟨inv w reached, c, answers⟩
      · rw [List.getElem?_set_ne mine] at runs
        exact (ih i q p runs).later trans (stable q) move
    | background moves => exact (ih i q p runs).later trans (stable q) move

/-- **Rely and guarantee.** The environment keeps `I` and moves by `rely`, as long as the calls meet
`asks`; and they do, as long as it does. -/
theorem guards {init : S → Prop} (I : S → Prop) (rely : S → S → Prop)
    (asks : Nat × Q → S → E → Prop) (post : Nat × Q → α → S → Prop) (refl : ∀ s, rely s s)
    (trans : ∀ s t r, rely s t → rely t r → rely s r)
    (stable : ∀ caller a s t, post caller a s → rely s t → post caller a t)
    (start : ∀ s, init s → I s) (arrives : ∀ s q t, I s → m.arrive s q = some t → I t ∧ rely s t)
    (answers : ∀ s caller e c r t, I s → asks caller s e → m.respond s caller e c = some (r, t) →
      I t ∧ rely s t)
    (moves : ∀ s b t, I s → m.background s b = some t → I t ∧ rely s t)
    (triple : ∀ i q s t, I s → m.arrive s q = some t →
      (m.handler q).Guards rely (m.answersIn I (i, q)) (asks (i, q)) (post (i, q)) t)
    {w : Pool Q E R α S} (h : (m.system init).Reachable w) :
    I w.env ∧ ∀ (i : Nat) q p, w.procs[i]? = some (q, p) →
      p.Guards rely (m.answersIn I (i, q)) (asks (i, q)) (post (i, q)) w.env := by
  refine h.invariant (I := fun w => I w.env ∧ ∀ (i : Nat) q p, w.procs[i]? = some (q, p) →
    p.Guards rely (m.answersIn I (i, q)) (asks (i, q)) (post (i, q)) w.env) ?_ ?_
  · rintro w ⟨begins, none, _⟩
    refine ⟨start _ begins, fun i q p runs => ?_⟩
    rw [none] at runs
    cases runs
  · rintro w mv w' - ⟨holds, ih⟩ hstep
    cases stepped hstep with
    | @arrive q' env taken =>
      obtain ⟨kept, move⟩ := arrives _ _ _ holds taken
      refine ⟨kept, fun i q p runs => ?_⟩
      rcases Rows.getElem?_concat runs with earlier | ⟨_, last⟩
      · exact (ih i q p earlier).later trans (stable (i, q)) move
      · cases last
        exact triple i q' w.env env holds taken
    | @go j c q' e k r env runs' responds =>
      obtain ⟨asked, goes⟩ := ih j q' _ runs' w.env (refl _)
      obtain ⟨kept, move⟩ := answers _ _ _ _ _ _ holds asked responds
      refine ⟨kept, fun i q p runs => ?_⟩
      by_cases mine : j = i
      · subst mine
        have hj : j < w.procs.length := (List.getElem?_eq_some_iff.mp runs').1
        rw [List.getElem?_set_self hj] at runs
        cases runs
        exact goes r env ⟨holds, c, responds⟩
      · rw [List.getElem?_set_ne mine] at runs
        exact (ih i q p runs).later trans (stable (i, q)) move
    | background quiet =>
      obtain ⟨kept, move⟩ := moves _ _ _ holds quiet
      exact ⟨kept, fun i q p runs => (ih i q p runs).later trans (stable (i, q)) move⟩

/-! ## One request at a time -/

variable (m)

/-- The runs in which a request arrives only once the one before is answered, the choices are those
`allows` admits, and the environment moves only as `calm` admits. -/
def oneByOne (init : S → Prop) (accepts : Q → Prop) (allows : C → Prop) (calm : S → B → Prop) :
    System (Pool Q E R α S) (Move Q C B) :=
  (m.system init).restrict fun w mv =>
    match mv with
    | .arrive q => w.Idle ∧ accepts q
    | .go _ c => allows c
    | .background b => calm w.env b

/-- The moves of the environment between two calls. -/
def relies (calm : S → B → Prop) : S → S → Prop :=
  Relation.ReflTransGen fun s t => ∃ b, calm s b ∧ m.background s b = some t

/-- The answers to the calls of one request. -/
def answers (allows : C → Prop) (caller : Nat × Q) (s : S) (e : E) (r : R e) (t : S) : Prop :=
  ∃ c, allows c ∧ m.respond s caller e c = some (r, t)

/-- What one program guarantees: it leaves the environment as the next one may find it. -/
def Keeps (allows : C → Prop) (calm : S → B → Prop) (I : S → Prop) (Post : Q → α → S → Prop)
    (i : Nat) (q : Q) (p : Prog E R α) (s : S) : Prop :=
  p.Safe (m.relies calm) (m.answers allows (i, q)) (fun a t => I t ∧ Post q a t) s

/-- Where a run of `oneByOne` stands: between two requests, or within one; and every answer so far
was as its handler guarantees. -/
structure Situation (allows : C → Prop) (calm : S → B → Prop) (I : S → Prop)
    (Post : Q → α → S → Prop) (w : Pool Q E R α S) : Prop where
  stands : w.Idle ∧ I w.env ∨ ∃ i q e k, w.procs[i]? = some (q, .call e k) ∧ Pool.Only w.procs i ∧
    m.Keeps allows calm I Post i q (.call e k) w.env
  answered : ∀ q a s, (q, a, s) ∈ w.answered → Post q a s

variable {m} {init : S → Prop} {accepts : Q → Prop} {allows : C → Prop} {calm : S → B → Prop}
  {I : S → Prop} {Post : Q → α → S → Prop}

/-- The program of one request has made its step. -/
theorem Situation.of_keeps {env : S} {procs : List (Q × Prog E R α)} {answered : List (Q × α × S)}
    {i : Nat} {q : Q} {p : Prog E R α} (before : ∀ q a s, (q, a, s) ∈ answered → Post q a s)
    (mine : procs[i]? = some (q, p)) (only : Pool.Only procs i)
    (keeps : m.Keeps allows calm I Post i q p env) :
    m.Situation allows calm I Post ⟨env, procs, Pool.note q p env ++ answered⟩ := by
  cases p with
  | ret a =>
    refine ⟨.inl ⟨?_, keeps.1⟩, ?_⟩
    · intro j q' e k runs
      obtain rfl := only j q' e k runs
      rw [mine] at runs
      cases runs
    · intro q' a' s mem
      rcases List.mem_cons.mp mem with new | old
      · cases new
        exact keeps.2
      · exact before q' a' s old
  | call e k => exact ⟨.inr ⟨i, q, e, k, mine, only, keeps⟩, before⟩

/-- **One request at a time.** If each handler, run by itself from an environment with `I`, returns
with `I` and its own `Post`, then every answer of every such run has its `Post`. -/
theorem oneByOne_situation (start : ∀ s, init s → I s)
    (between : ∀ s b t, I s → calm s b → m.background s b = some t → I t)
    (triple : ∀ i q s t, accepts q → I s → m.arrive s q = some t →
      m.Keeps allows calm I Post i q (m.handler q) t)
    {w : Pool Q E R α S} (h : (m.oneByOne init accepts allows calm).Reachable w) :
    m.Situation allows calm I Post w := by
  refine h.invariant ?_ ?_
  · rintro w ⟨begins, none, unanswered⟩
    refine ⟨.inl ⟨?_, start _ begins⟩, ?_⟩
    · intro i q e k runs
      rw [none] at runs
      cases runs
    · intro q a s mem
      rw [unanswered] at mem
      cases mem
  · rintro w mv w' - ih ⟨admitted, hstep⟩
    cases stepped hstep with
    | @arrive q env taken =>
      obtain ⟨idle, accepted⟩ := admitted
      obtain ⟨_, holds⟩ | ⟨i, q', e, k, runs, _⟩ := ih.stands
      · exact .of_keeps ih.answered List.getElem?_concat_length (Pool.only_append idle _)
          (triple _ q _ _ accepted holds taken)
      · exact absurd runs (idle i q' e k)
    | @go i c q e k r env runs answers =>
      obtain ⟨idle, _⟩ | ⟨i', q', e', k', runs', only, keeps⟩ := ih.stands
      · exact absurd runs (idle i q e k)
      · obtain rfl := only i q e k runs
        rw [runs] at runs'
        cases runs'
        have hi : i < w.procs.length := (List.getElem?_eq_some_iff.mp runs).1
        exact .of_keeps ih.answered (List.getElem?_set_self hi) (only.set _)
          (keeps w.env Relation.ReflTransGen.refl r env ⟨c, admitted, answers⟩)
    | @background b env moves =>
      obtain ⟨idle, holds⟩ | ⟨i, q, e, k, runs, only, keeps⟩ := ih.stands
      · exact ⟨.inl ⟨idle, between _ b _ holds admitted moves⟩, ih.answered⟩
      · refine ⟨.inr ⟨i, q, e, k, runs, only, ?_⟩, ih.answered⟩
        exact keeps.moved Relation.ReflTransGen.trans (.single ⟨b, admitted, moves⟩)

end Machine

end Program
