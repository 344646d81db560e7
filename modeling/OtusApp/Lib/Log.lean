import OtusApp.Lib.Program

/-!
# What a program has done

The calls a program has made by its end, each with the answer it was given, are its log. `Prog.Logs`
says what holds of the log and the value returned, whatever the answers are; a program after another
appends to its log (`Logs.bind`). `Prog.Shows` says it of the part of the log that matters.
-/

namespace Program

variable {E : Type} {R : E → Type} {α β V : Type}

/-- Calls and their answers, in the order they were made. -/
abbrev Log (E : Type) (R : E → Type) := List (Σ e : E, R e)

namespace Prog

/-- Whatever it is answered, the program ends with a log and a value that meet `P`. -/
def Logs (P : Log E R → α → Prop) : Prog E R α → Prop
  | .ret a => P [] a
  | .call e k => ∀ r, (k r).Logs fun log a => P (⟨e, r⟩ :: log) a

theorem Logs.mono {P P' : Log E R → α → Prop} (weaker : ∀ log a, P log a → P' log a)
    {x : Prog E R α} (h : x.Logs P) : x.Logs P' := by
  induction x generalizing P P' with
  | ret a => exact weaker [] a h
  | call e k ih => exact fun r => ih r (fun log a => weaker (⟨e, r⟩ :: log) a) (h r)

theorem Logs.bind {Q : Log E R → α → Prop} {P : Log E R → β → Prop} {x : Prog E R α}
    {f : α → Prog E R β} (h : x.Logs Q)
    (rest : ∀ log a, Q log a → (f a).Logs fun log' b => P (log ++ log') b) : (x >>= f).Logs P := by
  induction x generalizing P Q with
  | ret a => exact rest [] a h
  | call e k ih => exact fun r => ih r (h r) fun log a mid => rest (⟨e, r⟩ :: log) a mid

theorem logs_true (x : Prog E R α) : x.Logs fun _ _ => True := by
  induction x with
  | ret => exact trivial
  | call e k ih => exact ih

/-- What the log shows when only `event` is looked at. -/
def Shows (event : (Σ e : E, R e) → Option V) (P : List V → α → Prop) (x : Prog E R α) : Prop :=
  x.Logs fun log a => P (log.filterMap event) a

variable {event : (Σ e : E, R e) → Option V}

theorem Shows.mono {P P' : List V → α → Prop} {x : Prog E R α} (h : x.Shows event P)
    (weaker : ∀ seen a, P seen a → P' seen a) : x.Shows event P' :=
  Logs.mono (fun _ a => weaker _ a) h

theorem Shows.bind {Q : List V → α → Prop} {P : List V → β → Prop} {x : Prog E R α}
    {f : α → Prog E R β} (h : x.Shows event Q)
    (rest : ∀ seen a, Q seen a → (f a).Shows event fun seen' b => P (seen ++ seen') b) :
    (x >>= f).Shows event P := by
  refine Logs.bind h fun log a mid => ?_
  simp only [List.filterMap_append]
  exact rest _ a mid

/-- A program whose log shows nothing, and the program after it. -/
theorem Shows.silent {ok : α → Prop} {P : List V → β → Prop} {x : Prog E R α} {f : α → Prog E R β}
    (h : x.Shows event fun seen a => seen = [] ∧ ok a) (rest : ∀ a, ok a → (f a).Shows event P) :
    (x >>= f).Shows event P := by
  refine h.bind fun seen a mid => ?_
  obtain ⟨rfl, holds⟩ := mid
  exact rest a holds

end Prog

end Program
