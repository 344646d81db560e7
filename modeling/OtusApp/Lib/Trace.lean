import OtusApp.Lib.Protocol

/-!
# Traces, and programs whose calls are programs

The trace of a program lists its calls with their answers. A program that follows a protocol has
traces along which the protocol leads from mode to mode (`Prog.Follows.recorded`), so a property of
traces is proved about the protocol alone, by induction on the trace.

A call of one interface may itself be a program over another, with a state of its own
(`Prog.expand`). If a protocol of the first is kept by protocol-following programs of the second,
what follows the one follows the other once its calls are expanded (`Prog.Follows.expand`).
-/

namespace Program

variable {E E' : Type} {R : E → Type} {R' : E' → Type} {α M M' T : Type}

/-- The calls made so far, with their answers. -/
abbrev Trace (E : Type) (R : E → Type) := List ((e : E) × R e)

/-- Where a protocol leads along a trace; `none` where a call is not admitted. -/
def walk (next : Protocol E R M) : M → Trace E R → Option M
  | m, [] => some m
  | m, ⟨e, r⟩ :: rest => (next m e).bind fun onward => walk next (onward r) rest

variable {next : Protocol E R M}

theorem walk_cons {m m' : M} {e : E} {r : R e} {rest : Trace E R}
    (h : walk next m (⟨e, r⟩ :: rest) = some m') :
    ∃ onward, next m e = some onward ∧ walk next (onward r) rest = some m' :=
  Option.bind_eq_some_iff.mp h

theorem walk_append (next : Protocol E R M) (m : M) (first rest : Trace E R) :
    walk next m (first ++ rest) = (walk next m first).bind fun m => walk next m rest := by
  induction first generalizing m with
  | nil => rfl
  | cons step first ih =>
    obtain ⟨e, r⟩ := step
    rw [List.cons_append, walk, walk]
    cases next m e with
    | none => rfl
    | some onward => exact ih (onward r)

/-- Where the other calls leave the mode as it is, only those of a part are looked at. -/
theorem walk_filterMap {next' : Protocol E' R' M}
    (pick : ((e : E') × R' e) → Option ((e : E) × R e))
    (part : ∀ m step step', pick step = some step' → walk next' m [step] = walk next m [step'])
    (aside : ∀ m step, pick step = none → walk next' m [step] = some m) (m : M)
    (trace : Trace E' R') :
    walk next' m trace = walk next m (trace.filterMap pick) := by
  induction trace generalizing m with
  | nil => rfl
  | cons step trace ih =>
    refine (walk_append next' m [step] trace).trans ?_
    cases picked : pick step with
    | none =>
      rw [aside m step picked, List.filterMap_cons_none picked]
      exact ih m
    | some step' =>
      rw [part m step step' picked, List.filterMap_cons_some picked, funext ih]
      exact (walk_append next m [step'] (trace.filterMap pick)).symm

/-- A call on the way is made in some mode that admits it. -/
theorem walk_split {m m' : M} {before after : Trace E R} {e : E} {r : R e}
    (h : walk next m (before ++ ⟨e, r⟩ :: after) = some m') :
    ∃ mode onward, walk next m before = some mode ∧ next mode e = some onward ∧
      walk next (onward r) after = some m' := by
  rw [walk_append] at h
  obtain ⟨mode, reached, rest⟩ := Option.bind_eq_some_iff.mp h
  obtain ⟨onward, admitted, rest⟩ := walk_cons rest
  exact ⟨mode, onward, reached, admitted, rest⟩

namespace Prog

/-- Every call is answered as an outcome says, and recorded. -/
def record (trace : Trace E R) (e : E) (outcome : (e : E) → R e) : Option (R e × Trace E R) :=
  some (outcome e, trace ++ [⟨e, outcome e⟩])

/-- The protocol leads along the trace of a program that follows it, and what is left follows it
from there. -/
theorem Follows.recorded {post : M → α → Prop} {x y : Prog E R α} {m : M}
    (h : x.Follows next post m) {outcomes : List ((e : E) → R e)} {trace : Trace E R}
    (runs : x.after record [] outcomes = some (y, trace)) :
    ∃ mode, walk next m trace = some mode ∧ y.Follows next post mode := by
  refine Follows.after (J := fun trace mode => walk next m trace = some mode) ?_ h rfl runs
  rintro trace mode e onward outcome r t reached admitted ⟨⟩
  rw [walk_append, reached, Option.bind_some, walk, admitted]
  rfl

/-- A program follows the protocol of a larger interface as it follows that of its part. -/
theorem Follows.lift {next' : Protocol E' R' M} {part : E → E'} {answer : ∀ e, R' (part e) → R e}
    {post : M → α → Prop}
    (same : ∀ m e onward, next m e = some onward →
      next' m (part e) = some fun r => onward (answer e r))
    {x : Prog E R α} {m : M} (h : x.Follows next post m) :
    (x.lift part answer).Follows next' post m := by
  induction x generalizing m with
  | ret a => exact h
  | call e k ih =>
    obtain ⟨onward, admitted, follows⟩ := h
    exact ⟨_, same m e onward admitted, fun r => ih (answer e r) (follows (answer e r))⟩

/-- The program with each call answered by a program over another interface, which has a state of
its own. -/
def expand (impl : (e : E) → T → Prog E' R' (R e × T)) : Prog E R α → T → Prog E' R' (α × T)
  | .ret a, t => .ret (a, t)
  | .call e k, t => (impl e t).bind fun (r, t) => (k r).expand impl t

theorem Follows.expand {next' : Protocol E' R' M'} {impl : (e : E) → T → Prog E' R' (R e × T)}
    {post : M → α → Prop} (J : M → T → M' → Prop)
    (step : ∀ m t m' e onward, J m t m' → next m e = some onward →
      (impl e t).Follows next' (fun m' r => J (onward r.1) r.2 m') m')
    {x : Prog E R α} {m : M} {t : T} {m' : M'} (follows : x.Follows next post m) (h : J m t m') :
    (x.expand impl t).Follows next' (fun m' r => ∃ m, post m r.1 ∧ J m r.2 m') m' := by
  induction x generalizing m t m' with
  | ret a => exact ⟨m, follows, h⟩
  | call e k ih =>
    obtain ⟨onward, admitted, follows⟩ := follows
    refine (step m t m' e onward h admitted).bind ?_
    rintro m' ⟨r, t⟩ holds
    exact ih r (follows r) holds

end Prog

end Program
