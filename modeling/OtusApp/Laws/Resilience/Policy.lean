import OtusApp.Lib.Log
import OtusApp.Resilience.Policy

/-!
# The budget of a policy

`Policy.Do` over any context, timer, metrics and call: what it asks for is logged, and `Accounts`
says what the log and the error returned have to do with each other. One round of the loop is one of
four (`round_logs`), and the account is kept from a round to those after it (`Accounts.repeated`).

That the context has ended is what `ctx.Err` and `Wait` tell.
-/

namespace OtusApp.Resilience.Policy

open Go Program

variable {ε : Type}

/-! ## What is logged -/

/-- What `Do` asks for, its own call included. -/
inductive Ask
  | err
  | retried
  | exhausted
  | draw
  | wait (delay : Duration)
  | call

/-- What it is answered. -/
def Ask.Result (ε : Type) : Ask → Type
  | .err => Option ε
  | .retried => Unit
  | .exhausted => Unit
  | .draw => Nat
  | .wait _ => Option ε
  | .call => Option ε

/-- Each of them by itself. -/
def asking (ε : Type) : Retrier Ask (Ask.Result ε) ε where
  err := .ask Ask.err
  retried := .ask Ask.retried
  exhausted := .ask Ask.exhausted
  draw := .ask Ask.draw
  wait delay := .ask (Ask.wait delay)

/-- The call. -/
def calling (ε : Type) (_ : Unit) : Prog Ask (Ask.Result ε) (Option ε × Unit) := do
  let err ← (.ask Ask.call : Prog Ask (Ask.Result ε) (Option ε))
  return (err, ())

/-- `Do` over them. -/
def doing (p : Policy) (retryable : ε → Bool) : Prog Ask (Ask.Result ε) (Option ε × Unit) :=
  p.do_ (asking ε) retryable (calling ε) ()

/-- The results of the calls. -/
def results (log : Log Ask (Ask.Result ε)) : List (Option ε) :=
  log.filterMap fun
    | ⟨.call, result⟩ => some result
    | _ => none

/-- The error of a context that is seen to have ended. -/
def seenEnded : (Σ e : Ask, e.Result ε) → Option ε
  | ⟨.err, ended⟩ => ended
  | ⟨.wait _, ended⟩ => ended
  | _ => none

/-- The error of the context, if it was seen to have ended. -/
def ended (log : Log Ask (Ask.Result ε)) : Option ε := log.findSome? seenEnded

/-- The retries counted. -/
def retries (log : Log Ask (Ask.Result ε)) : Nat :=
  log.countP fun
    | ⟨.retried, _⟩ => true
    | _ => false

/-- The exhausted budgets counted. -/
def exhaustions (log : Log Ask (Ask.Result ε)) : Nat :=
  log.countP fun
    | ⟨.exhausted, _⟩ => true
    | _ => false

/-- Whether a result may be repeated. -/
def isRepeatable (retryable : ε → Bool) : Option ε → Bool
  | none => false
  | some e => retryable e

/-- Whether all of a budget was spent on errors that may be repeated, and the context had not ended
after the last. -/
def Spent (limit : Nat) (retryable : ε → Bool) (log : Log Ask (Ask.Result ε)) : Prop :=
  (results log).length = limit ∧
  (∃ last, (results log).getLast? = some last ∧ isRepeatable retryable last = true) ∧
    ended log = none

/-- The account of a loop that makes `limit` calls at most; `again` says whether its first is a
repetition. -/
structure Accounts (limit : Nat) (again : Bool) (retryable : ε → Bool)
    (log : Log Ask (Ask.Result ε)) (err : Option ε) : Prop where
  calls : (results log).length ≤ limit
  uncalled : results log = [] → (ended log).isSome = true
  repeats : ∀ result ∈ (results log).dropLast, isRepeatable retryable result = true
  stops : ∀ asked ∈ log.dropLast, seenEnded asked = none
  looks : (ended log).isSome = true → ∀ result ∈ results log, isRepeatable retryable result = true
  retried : retries log = (results log).length - if again then 0 else 1
  exhausted : (Spent limit retryable log → exhaustions log = 1) ∧
    (¬ Spent limit retryable log → exhaustions log = 0)
  returned : match ended log with
    | some ctxErr => err = some ctxErr
    | none => (results log).getLast? = some err

/-! ## Logs that are appended -/

section Append

variable (log log' : Log Ask (Ask.Result ε))

theorem results_append : results (log ++ log') = results log ++ results log' :=
  List.filterMap_append

theorem ended_append : ended (log ++ log') = (ended log).or (ended log') := List.findSome?_append

theorem retries_append : retries (log ++ log') = retries log + retries log' := List.countP_append

theorem exhaustions_append : exhaustions (log ++ log') = exhaustions log + exhaustions log' :=
  List.countP_append

end Append

/-! ## One round -/

/-- The log of a round up to its call. -/
def opening (again : Bool) (result : Option ε) : Log Ask (Ask.Result ε) :=
  ⟨.err, none⟩ :: (if again then [⟨.retried, ()⟩] else []) ++ [⟨.call, result⟩]

theorem results_opening (again : Bool) (result : Option ε) :
    results (opening again result) = [result] := by
  cases again <;> rfl

theorem ended_opening (again : Bool) (result : Option ε) : ended (opening again result) = none := by
  cases again <;> rfl

theorem retries_opening (again : Bool) (result : Option ε) :
    retries (opening again result) = if again then 1 else 0 := by
  cases again <;> rfl

theorem exhaustions_opening (again : Bool) (result : Option ε) :
    exhaustions (opening again result) = 0 := by
  cases again <;> rfl

theorem seenEnded_opening {again : Bool} {result : Option ε} {asked : Σ e : Ask, e.Result ε}
    (h : asked ∈ opening again result) : seenEnded asked = none := by
  have none := ended_opening again result
  exact List.findSome?_eq_none_iff.mp none asked h

/-- What a round can come to: the context has ended before its call; the result stands; the context
has ended after an error that may be repeated; or what is next decides. -/
theorem round_logs {retryable : ε → Bool} {attempt : Int}
    {next : ε → Unit → Prog Ask (Ask.Result ε) (Option ε × Unit)}
    {P : Log Ask (Ask.Result ε) → Option ε × Unit → Prop}
    (before : ∀ ctxErr, P [⟨.err, some ctxErr⟩] (some ctxErr, ()))
    (stands : ∀ result, isRepeatable retryable result = false →
      P (opening (attempt > 1) result) (result, ()))
    (after : ∀ e ctxErr, retryable e = true →
      P (opening (attempt > 1) (some e) ++ [⟨.err, some ctxErr⟩]) (some ctxErr, ()))
    (goes : ∀ e, retryable e = true → (next e ()).Logs fun log v =>
      P (opening (attempt > 1) (some e) ++ ⟨.err, none⟩ :: log) v) :
    (round (asking ε) retryable (calling ε) attempt () next).Logs P := by
  have called : ∀ result, (attempted (asking ε) retryable next (result, ())).Logs fun log v =>
      P (opening (attempt > 1) result ++ log) v := by
    intro result
    cases result with
    | none =>
      show P (opening (attempt > 1) none ++ []) (none, ())
      rw [List.append_nil]
      exact stands none rfl
    | some e =>
      rw [attempted]
      split
      · next retry =>
        intro ctxErr
        cases ctxErr with
        | some ctxErr => exact after e ctxErr retry
        | none => exact goes e retry
      · next final =>
        show P (opening (attempt > 1) (some e) ++ []) (some e, ())
        rw [List.append_nil]
        exact stands (some e) (Bool.eq_false_iff.mpr final)
  intro ctxErr
  cases ctxErr with
  | some ctxErr => exact before ctxErr
  | none =>
    by_cases again : attempt > 1
    · simp only [again, decide_true] at called
      simp only [Prog.bind, counted, if_pos again]
      exact fun _ result => called result
    · simp only [again, decide_false] at called
      simp only [Prog.bind, counted, if_neg again]
      exact fun result => called result

/-! ## The account of a round -/

section Rounds

variable {limit : Nat} {again : Bool} {retryable : ε → Bool}

/-- The context has ended before the call. -/
theorem accounts_before (ctxErr : ε) :
    Accounts (limit + 1) again retryable [⟨.err, some ctxErr⟩] (some ctxErr) where
  calls := Nat.zero_le _
  uncalled _ := rfl
  repeats := nofun
  stops := nofun
  looks _ := nofun
  retried := (Nat.zero_sub _).symm
  exhausted := ⟨fun spent => absurd spent.2.2 nofun, fun _ => rfl⟩
  returned := rfl

/-- The result of the call stands. -/
theorem accounts_stands {result : Option ε} (final : isRepeatable retryable result = false) :
    Accounts (limit + 1) again retryable (opening again result) result where
  calls := by
    rw [results_opening]
    exact Nat.le_add_left 1 limit
  uncalled none := by
    rw [results_opening] at none
    cases none
  repeats := by
    rw [results_opening]
    exact nofun
  stops asked mem := seenEnded_opening ((List.dropLast_sublist _).subset mem)
  looks seen := by
    rw [ended_opening] at seen
    cases seen
  retried := by
    rw [retries_opening, results_opening]
    cases again <;> rfl
  exhausted := by
    refine ⟨fun spent => ?_, fun _ => exhaustions_opening again result⟩
    obtain ⟨last, isLast, retry⟩ := spent.2.1
    rw [results_opening] at isLast
    obtain rfl : result = last := Option.some.inj isLast
    rw [final] at retry
    cases retry
  returned := by
    rw [ended_opening, results_opening]
    rfl

/-- How a round ends whose error may be repeated when the context is seen to have ended: at the look
after the call, or in the back-off. -/
inductive Interrupted (ctxErr : ε) : Log Ask (Ask.Result ε) → Prop
  | looked : Interrupted ctxErr [⟨.err, some ctxErr⟩]
  | waited (drawn : Nat) (delay : Duration) :
    Interrupted ctxErr [⟨.err, none⟩, ⟨.draw, drawn⟩, ⟨.wait delay, some ctxErr⟩]

/-- The context has ended after an error that may be repeated. -/
theorem accounts_after {e : ε} (retry : retryable e = true) {ctxErr : ε}
    {tail : Log Ask (Ask.Result ε)} (h : Interrupted ctxErr tail) :
    Accounts (limit + 1) again retryable (opening again (some e) ++ tail) (some ctxErr) := by
  have results_eq : results (opening again (some e) ++ tail) = [some e] := by
    rw [results_append, results_opening]
    cases h <;> rfl
  have ended_eq : ended (opening again (some e) ++ tail) = some ctxErr := by
    rw [ended_append, ended_opening]
    cases h <;> rfl
  have unseen : ended tail.dropLast = none := by cases h <;> rfl
  have nonempty : tail ≠ [] := by cases h <;> exact List.cons_ne_nil _ _
  refine ⟨?_, ?_, ?_, ?_, ?_, ?_, ?_, ?_⟩
  · rw [results_eq]
    exact Nat.le_add_left 1 limit
  · rw [ended_eq]
    exact fun _ => rfl
  · rw [results_eq]
    exact nofun
  · intro asked mem
    rw [List.dropLast_append_of_ne_nil nonempty] at mem
    rcases List.mem_append.mp mem with mem | mem
    · exact seenEnded_opening mem
    · exact List.findSome?_eq_none_iff.mp unseen asked mem
  · intro _ result mem
    rw [results_eq] at mem
    rw [List.mem_singleton.mp mem]
    exact retry
  · rw [retries_append, retries_opening, results_eq]
    cases h <;> cases again <;> rfl
  · refine ⟨fun spent => ?_, fun _ => ?_⟩
    · have none := spent.2.2
      rw [ended_eq] at none
      cases none
    · rw [exhaustions_append, exhaustions_opening]
      cases h <;> rfl
  · rw [ended_eq]

/-- The last call of the budget has failed, and its error may be repeated. -/
theorem accounts_exhausted {e : ε} (retry : retryable e = true) :
    Accounts 1 again retryable (opening again (some e) ++ [⟨.err, none⟩, ⟨.exhausted, ()⟩])
      (some e) := by
  have results_eq : results (opening again (some e) ++ [⟨.err, none⟩, ⟨.exhausted, ()⟩]) =
      [some e] := by
    rw [results_append, results_opening]
    rfl
  have ended_eq : ended (opening again (some e) ++ [⟨.err, none⟩, ⟨.exhausted, ()⟩]) = none := by
    rw [ended_append, ended_opening]
    rfl
  have spent : Spent 1 retryable (opening again (some e) ++ [⟨.err, none⟩, ⟨.exhausted, ()⟩]) := by
    refine ⟨?_, ⟨some e, ?_, retry⟩, ended_eq⟩
    · rw [results_eq]
      rfl
    · rw [results_eq]
      rfl
  refine ⟨?_, ?_, ?_, ?_, ?_, ?_, ?_, ?_⟩
  · rw [results_eq]
    exact Nat.le_refl 1
  · rw [results_eq]
    exact nofun
  · rw [results_eq]
    exact nofun
  · intro asked mem
    exact List.findSome?_eq_none_iff.mp ended_eq asked ((List.dropLast_sublist _).subset mem)
  · rw [ended_eq]
    exact nofun
  · rw [retries_append, retries_opening, results_eq]
    cases again <;> rfl
  · refine ⟨fun _ => ?_, fun unspent => absurd spent unspent⟩
    rw [exhaustions_append, exhaustions_opening]
    rfl
  · rw [ended_eq, results_eq]
    rfl

theorem Accounts.ne_nil {log : Log Ask (Ask.Result ε)} {err : Option ε}
    (h : Accounts limit again retryable log err) :
    log ≠ [] := by
  rintro rfl
  exact absurd (h.uncalled rfl) nofun

/-- A round that is repeated, and the rounds after it. -/
theorem Accounts.repeated {e : ε} (retry : retryable e = true) {drawn : Nat} {delay : Duration}
    {log : Log Ask (Ask.Result ε)} {err : Option ε}
    (h : Accounts (limit + 1) true retryable log err) :
    Accounts (limit + 2) again retryable
      (opening again (some e) ++
        ([⟨.err, none⟩, ⟨.draw, drawn⟩, ⟨.wait delay, none⟩] ++ log)) err := by
  rw [← List.append_assoc]
  generalize head : opening again (some e) ++
    [⟨.err, none⟩, ⟨.draw, drawn⟩, ⟨.wait delay, none⟩] = first
  have results_eq : results first = [some e] := by
    rw [← head, results_append, results_opening]
    rfl
  have ended_eq : ended first = none := by
    rw [← head, ended_append, ended_opening]
    rfl
  have retries_eq : retries first = if again then 1 else 0 := by
    rw [← head, retries_append, retries_opening]
    rfl
  have exhaustions_eq : exhaustions first = 0 := by
    rw [← head, exhaustions_append, exhaustions_opening]
    rfl
  have results_all : results (first ++ log) = some e :: results log := by
    rw [results_append, results_eq]
    rfl
  have ended_all : ended (first ++ log) = ended log := by
    rw [ended_append, ended_eq]
    rfl
  have exhaustions_all : exhaustions (first ++ log) = exhaustions log := by
    rw [exhaustions_append, exhaustions_eq, Nat.zero_add]
  have spent_iff : Spent (limit + 2) retryable (first ++ log) ↔
      Spent (limit + 1) retryable log := by
    rw [Spent, Spent, results_all, ended_all, List.length_cons, Nat.add_right_cancel_iff]
    refine and_congr_right fun full => ?_
    obtain ⟨result, rest, eq⟩ := List.exists_cons_of_length_eq_add_one full
    rw [eq, List.getLast?_cons_cons]
  refine ⟨?_, ?_, ?_, ?_, ?_, ?_, ?_, ?_⟩
  · rw [results_all, List.length_cons]
    exact Nat.succ_le_succ h.calls
  · rw [results_all]
    exact nofun
  · rw [results_all]
    intro result mem
    cases rest : results log with
    | nil =>
      rw [rest] at mem
      cases mem
    | cons next others =>
      rw [rest, List.dropLast_cons_cons] at mem
      rcases List.mem_cons.mp mem with rfl | mem
      · exact retry
      · exact h.repeats result (by rwa [rest])
  · intro asked mem
    rw [List.dropLast_append_of_ne_nil h.ne_nil] at mem
    rcases List.mem_append.mp mem with mem | mem
    · exact List.findSome?_eq_none_iff.mp ended_eq asked mem
    · exact h.stops asked mem
  · rw [ended_all, results_all]
    intro seen result mem
    rcases List.mem_cons.mp mem with rfl | mem
    · exact retry
    · exact h.looks seen result mem
  · have retried := h.retried
    rw [retries_append, retries_eq, results_all, List.length_cons]
    cases again <;> simp only [if_true, Bool.false_eq_true, if_false] at retried ⊢ <;> omega
  · rw [spent_iff, exhaustions_all]
    exact h.exhausted
  · have returned := h.returned
    rw [ended_all, results_all]
    split
    · next ctxErr seen =>
      rw [seen] at returned
      exact returned
    · next seen =>
      rw [seen] at returned
      simp only at returned
      rw [List.getLast?_cons, returned]
      rfl

end Rounds

/-! ## The whole loop -/

theorem loop_logs (p : Policy) (retryable : ε → Bool) (left : Nat) :
    ∀ attempt ≥ 1, (loop p (asking ε) retryable (calling ε) left attempt ()).Logs fun log v =>
      Accounts (left + 1) (attempt > 1) retryable log v.1 := by
  induction left with
  | zero =>
    intro attempt _
    refine round_logs accounts_before (fun _ => accounts_stands)
      (fun _ _ retry => accounts_after retry .looked) ?_
    intro e retry _
    exact accounts_exhausted retry
  | succ left ih =>
    intro attempt numbered
    refine round_logs accounts_before (fun _ => accounts_stands)
      (fun _ _ retry => accounts_after retry .looked) ?_
    intro e retry drawn ctxErr
    cases ctxErr with
    | some ctxErr => exact accounts_after retry (.waited drawn _)
    | none =>
      refine (ih (attempt + 1) (by omega)).mono fun log v rest => ?_
      rw [decide_eq_true (by omega : attempt + 1 > 1)] at rest
      exact rest.repeated retry

/-- **The budget.** Whatever the policy, the results of the calls and the moment the context ends,
`Do` keeps the account of `max(Attempts, 1)` calls. -/
theorem budget_accounts (p : Policy) (retryable : ε → Bool) :
    (doing p retryable).Logs fun log v =>
      Accounts (max p.attempts 1).toNat false retryable log v.1 := by
  have limit : (max p.attempts 1).toNat = (max p.attempts 1 - 1).toNat + 1 := by omega
  rw [limit]
  exact loop_logs p retryable (max p.attempts 1 - 1).toNat 1 (by decide)

end OtusApp.Resilience.Policy
