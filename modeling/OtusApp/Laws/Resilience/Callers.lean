import OtusApp.Lib.Log
import OtusApp.Resilience.Policy

/-!
# What is called through a policy

An invariant rule for `Policy.Do` over the part of the log that its caller looks at, in which
neither the context nor the timer nor the metrics show. `J` holds between two calls, with the number
of those made; each call keeps it where its error may be repeated, and ends in `Q` in any case. What
every call of the caller and of the policy meets is said apart (`Policy.do_all`), and so is what the
environment keeps until a call succeeds (`Policy.do_safe`).
-/

namespace OtusApp.Resilience

open Go Program

variable {E : Type} {R : E → Type} {ε σ V : Type}

/-- The policy's own calls do not show, and what the context ends with meets `ended`. -/
structure Retrier.Silent (event : (Σ e : E, R e) → Option V) (ended : ε → Prop)
    (r : Retrier E R ε) : Prop where
  err : r.err.Shows event fun seen a => seen = [] ∧ ∀ e, a = some e → ended e
  retried : r.retried.Shows event fun seen _ => seen = [] ∧ True
  exhausted : r.exhausted.Shows event fun seen _ => seen = [] ∧ True
  draw : r.draw.Shows event fun seen _ => seen = [] ∧ True
  wait : ∀ delay, (r.wait delay).Shows event fun seen a => seen = [] ∧ ∀ e, a = some e → ended e

namespace Policy

variable {event : (Σ e : E, R e) → Option V} {ended : ε → Prop} {r : Retrier E R ε}
    {retryable : ε → Bool}
  {call : σ → Prog E R (Option ε × σ)} {J : Nat → List V → σ → Prop}
    {Q : List V → Option ε × σ → Prop}

/-- One round of the loop. -/
theorem round_shows (silent : r.Silent event ended) {seen : List V} {vars : σ} {attempt : Int}
    {n : Nat} {next : ε → σ → Prog E R (Option ε × σ)}
    (calls : (call vars).Shows event fun seen' v => Q (seen ++ seen') v ∧ ∀ e, v.1 = some e →
      retryable e = true → J (n + 1) (seen ++ seen') v.2)
    (ends : ∀ k seen vars e, J k seen vars → ended e → Q seen (some e, vars))
    (before : J n seen vars)
    (goes : ∀ seen e vars, J (n + 1) seen vars → Q seen (some e, vars) →
      (next e vars).Shows event fun seen' v => Q (seen ++ seen') v) :
    (round r retryable call attempt vars next).Shows event fun seen' v => Q (seen ++ seen') v := by
  have count : (counted r attempt).Shows event fun seen _ => seen = [] ∧ True := by
    rw [counted]
    split
    · exact silent.retried
    · exact ⟨rfl, trivial⟩
  have after : ∀ seen' v, (Q (seen ++ seen') v ∧
      ∀ e, v.1 = some e → retryable e = true → J (n + 1) (seen ++ seen') v.2) →
      (attempted r retryable next v).Shows event fun seen'' v =>
        Q (seen ++ (seen' ++ seen'')) v := by
    rintro seen' ⟨err, vars⟩ ⟨final, again⟩
    have stands : Q (seen ++ (seen' ++ [])) (err, vars) := by rwa [List.append_nil]
    cases err with
    | none => exact stands
    | some e =>
      rw [attempted]
      split
      · next retry =>
        refine silent.err.silent fun looked ok => ?_
        have between := again e rfl retry
        cases looked with
        | some ctxErr =>
          have finishes := ends (n + 1) _ _ ctxErr between (ok ctxErr rfl)
          rw [← List.append_nil (seen ++ seen'), List.append_assoc] at finishes
          exact finishes
        | none =>
          refine (goes _ e vars between final).mono fun seen'' v post => ?_
          rwa [← List.append_assoc]
      · exact stands
  refine silent.err.silent fun looked ok => ?_
  cases looked with
  | some ctxErr =>
    have finishes := ends n seen vars ctxErr before (ok ctxErr rfl)
    rw [← List.append_nil seen] at finishes
    exact finishes
  | none => exact count.silent fun _ _ => calls.bind after

/-- **What is called through a policy.** -/
theorem do_shows (p : Policy) (silent : r.Silent event ended)
    (calls : ∀ n seen vars, n < (max p.attempts 1).toNat → J n seen vars →
      (call vars).Shows event fun seen' v => Q (seen ++ seen') v ∧ ∀ e, v.1 = some e →
      retryable e = true → J (n + 1) (seen ++ seen') v.2)
    (ends : ∀ n seen vars e, J n seen vars → ended e → Q seen (some e, vars)) {vars : σ}
    (start : J 0 [] vars) :
    (p.do_ r retryable call vars).Shows event Q := by
  have loops : ∀ left n attempt seen vars, n + left + 1 = (max p.attempts 1).toNat → J n seen vars →
      (loop p r retryable call left attempt vars).Shows event fun seen' v =>
        Q (seen ++ seen') v := by
    intro left
    induction left with
    | zero =>
      intro n attempt seen vars budget before
      refine round_shows silent (calls n seen vars (by omega) before) ends
        before fun seen e vars _ final => ?_
      refine silent.exhausted.silent fun _ _ => ?_
      rw [← List.append_nil seen] at final
      exact final
    | succ left ih =>
      intro n attempt seen vars budget before
      refine round_shows silent (calls n seen vars (by omega) before) ends
        before fun seen e vars between _ => ?_
      refine silent.draw.silent fun source _ => (silent.wait _).silent fun waited ok => ?_
      cases waited with
      | some ctxErr =>
        have finishes := ends (n + 1) seen vars ctxErr between (ok ctxErr rfl)
        rw [← List.append_nil seen] at finishes
        exact finishes
      | none => exact ih (n + 1) (attempt + 1) seen vars (by omega) between
  exact loops (max p.attempts 1 - 1).toNat 0 1 [] vars (by omega) start

end Policy

/-- Every call of the policy's own meets `P`. -/
structure Retrier.All (P : E → Prop) (r : Retrier E R ε) : Prop where
  err : r.err.All P
  retried : r.retried.All P
  exhausted : r.exhausted.All P
  draw : r.draw.All P
  wait : ∀ delay, (r.wait delay).All P

namespace Policy

variable {P : E → Prop} {r : Retrier E R ε} {retryable : ε → Bool}
    {call : σ → Prog E R (Option ε × σ)}

theorem round_all (own : r.All P) (calls : ∀ vars, (call vars).All P) (attempt : Int) (vars : σ)
    {next : ε → σ → Prog E R (Option ε × σ)} (goes : ∀ e vars, (next e vars).All P) :
    (round r retryable call attempt vars next).All P := by
  have after : ∀ v, (attempted r retryable next v).All P := by
    rintro ⟨err, vars⟩
    cases err with
    | none => trivial
    | some e =>
      rw [attempted]
      split
      · refine Prog.all_bind own.err fun looked => ?_
        cases looked with
        | some ended => trivial
        | none => exact goes e vars
      · trivial
  have count : (counted r attempt).All P := by
    rw [counted]
    split
    · exact own.retried
    · trivial
  refine Prog.all_bind own.err fun looked => ?_
  cases looked with
  | some ended => trivial
  | none => exact Prog.all_bind count fun _ => Prog.all_bind (calls vars) after

/-- **Every call under a policy.** -/
theorem do_all (p : Policy) (own : r.All P) (calls : ∀ vars, (call vars).All P) (vars : σ) :
    (p.do_ r retryable call vars).All P := by
  have loops : ∀ left attempt vars, (loop p r retryable call left attempt vars).All P := by
    intro left
    induction left with
    | zero =>
      intro attempt vars
      exact round_all own calls attempt vars fun e vars =>
        Prog.all_bind own.exhausted fun _ => trivial
    | succ left ih =>
      intro attempt vars
      refine round_all own calls attempt vars fun e vars => ?_
      refine Prog.all_bind own.draw fun source => Prog.all_bind (own.wait _) fun waited => ?_
      cases waited with
      | some ended => trivial
      | none => exact ih (attempt + 1) vars
  exact loops _ 1 vars

end Policy

variable {S : Type} {rely : S → S → Prop} {answer : S → (e : E) → R e → S → Prop}

/-- The policy's own calls keep `J`. -/
structure Retrier.Keeps (rely : S → S → Prop) (answer : S → (e : E) → R e → S → Prop) (J : S → Prop)
    (r : Retrier E R ε) : Prop where
  err : ∀ s, J s → r.err.Safe rely answer (fun _ t => J t) s
  retried : ∀ s, J s → r.retried.Safe rely answer (fun _ t => J t) s
  exhausted : ∀ s, J s → r.exhausted.Safe rely answer (fun _ t => J t) s
  draw : ∀ s, J s → r.draw.Safe rely answer (fun _ t => J t) s
  wait : ∀ delay s, J s → (r.wait delay).Safe rely answer (fun _ t => J t) s

namespace Policy

variable {r : Retrier E R ε} {retryable : ε → Bool} {call : σ → Prog E R (Option ε × σ)}
    {J : S → Prop}

theorem round_safe (own : r.Keeps rely answer J)
    (calls : ∀ vars s, J s → (call vars).Safe rely answer (fun v t => v.1 ≠ none → J t) s)
    (attempt : Int) (vars : σ) {next : ε → σ → Prog E R (Option ε × σ)}
    (goes : ∀ e vars s, J s → (next e vars).Safe rely answer (fun v t => v.1 ≠ none → J t) s)
    {s : S} (h : J s) :
    (round r retryable call attempt vars next).Safe rely answer
      (fun v t => v.1 ≠ none → J t) s := by
  have after : ∀ v t, (v.1 ≠ none → J t) →
      (attempted r retryable next v).Safe rely answer (fun v t => v.1 ≠ none → J t) t := by
    intro v t kept
    obtain ⟨err, vars⟩ := v
    cases err with
    | none => exact fun failed => absurd rfl failed
    | some e =>
      have holds := kept (Option.some_ne_none e)
      rw [attempted]
      split
      · refine (own.err t holds).bind fun looked u later => ?_
        cases looked with
        | some ended => exact fun _ => later
        | none => exact goes e vars u later
      · exact fun _ => holds
  have count : ∀ t, J t → (counted r attempt).Safe rely answer (fun _ t => J t) t := by
    intro t holds
    rw [counted]
    split
    · exact own.retried t holds
    · exact holds
  refine (own.err s h).bind fun looked t holds => ?_
  cases looked with
  | some ended => exact fun _ => holds
  | none => exact (count t holds).bind fun _ u kept => (calls vars u kept).bind after

/-- **Until a call succeeds.** What a failed call keeps, a policy that gives up has kept. -/
theorem do_safe (p : Policy) (own : r.Keeps rely answer J)
    (calls : ∀ vars s, J s → (call vars).Safe rely answer (fun v t => v.1 ≠ none → J t) s)
    (vars : σ) {s : S} (h : J s) :
    (p.do_ r retryable call vars).Safe rely answer (fun v t => v.1 ≠ none → J t) s := by
  have loops : ∀ left attempt vars s, J s →
      (loop p r retryable call left attempt vars).Safe rely answer
        (fun v t => v.1 ≠ none → J t) s := by
    intro left
    induction left with
    | zero =>
      intro attempt vars s h
      refine round_safe own calls attempt vars (fun e vars t holds => ?_) h
      refine (own.exhausted t holds).bind fun _ u kept => ?_
      exact fun _ => kept
    | succ left ih =>
      intro attempt vars s h
      refine round_safe own calls attempt vars (fun e vars t holds => ?_) h
      refine (own.draw t holds).bind fun source u kept =>
        (own.wait _ u kept).bind fun waited v still => ?_
      cases waited with
      | some ended => exact fun _ => still
      | none => exact ih (attempt + 1) vars v still
  exact loops _ 1 vars s h

end Policy

end OtusApp.Resilience
