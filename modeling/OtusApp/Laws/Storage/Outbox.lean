import OtusApp.Storage.Database

/-!
# What the outbox operations change

`Claim` rewrites at most the one row it returns, a claimable one; `Complete` and `Retry` rewrite
the row leased under the delivery's token or nothing. None of them touches a key or a payload.
-/

namespace OtusApp.Storage

open Messaging Outbox Go

variable {P : Type}

@[simp] theorem lease_job (token : String) (now : Time) (d : Duration) (o : OutboxRow P) :
    (lease token now d o).job = o.job := rfl

@[simp] theorem delivered_job (now : Time) (o : OutboxRow P) : (delivered now o).job = o.job := rfl

@[simp] theorem released_job (now : Time) (delay : Duration) (o : OutboxRow P) :
    (released now delay o).job = o.job := rfl

/-- The candidate is a claimable row of the table. -/
theorem candidate_some {outbox : List (OutboxRow P)} {target : String}
    {locked : List (Nat × String)} {now : Time} {o : OutboxRow P}
    (h : candidate outbox target locked now = some o) :
    o ∈ outbox ∧ o.target = target ∧ o.deliveredAt = none ∧ o.availableAt ≤ now ∧
    o.key ∉ locked := by
  have mem := List.mem_of_head? h
  rw [List.mem_insertionSort, List.mem_filter] at mem
  exact ⟨mem.1, by simpa only [claimable, decide_eq_true_eq] using mem.2⟩

/-- What the statement of `Claim` can do: fail, find nothing, or lease a claimable row. -/
theorem claimStatement_cases (outbox : List (OutboxRow P)) (target : String) (d : Duration)
    (token : String) (locked : List (Nat × String)) (now : Time) :
    claimStatement outbox target d token locked now = .error .database ∨
    claimStatement outbox target d token locked now = .ok (none, outbox) ∨
    ∃ o ∈ outbox, (o.target = target ∧ o.deliveredAt = none ∧ o.availableAt ≤ now) ∧
      claimStatement outbox target d token locked now = .ok (some (lease token now d o),
        Rows.update (fun r => r.key = o.key) (lease token now d) outbox) := by
  cases found : candidate outbox target locked now with
  | none => exact .inr (.inl (by simp only [claimStatement, found]))
  | some o =>
    obtain ⟨mem, ht, hd, ha, _⟩ := candidate_some found
    by_cases room : o.attempts < maxInteger
    · refine .inr (.inr ⟨o, mem, ⟨ht, hd, ha⟩, ?_⟩)
      simp only [claimStatement, found, room, if_true]
    · exact .inl (by simp only [claimStatement, found, room, if_false])

/-- What a `Claim` does to the table and leaves in the history: nothing, or one row leased. -/
theorem claim_effect (codec : EventCodec) (outbox : List (OutboxRow codec.Payload))
    (target : String) (d : Duration) (token : String) (locked : List (Nat × String)) (now : Time)
    (answer : Answer) :
    ((claim codec outbox target d token locked now answer).1 = outbox ∧
      claimEntry outbox target d token locked now answer = []) ∨
    ∃ o ∈ outbox, (o.target = target ∧ o.deliveredAt = none ∧ o.availableAt ≤ now) ∧
      (claim codec outbox target d token locked now answer).1 =
        Rows.update (fun r => r.key = o.key) (lease token now d) outbox ∧
      claimEntry outbox target d token locked now answer = [.claimed now d token o.key] := by
  rcases claimStatement_cases outbox target d token locked now with eq | eq | ⟨o, mem, row, eq⟩
  · left
    cases answer <;> simp only [claim, claimEntry, eq, and_self]
  · left
    cases answer <;> simp only [claim, claimEntry, eq, and_self]
  · cases answer with
    | failed => exact .inl ⟨by simp only [claim], rfl⟩
    | lost =>
      refine .inr ⟨o, mem, row, ?_, ?_⟩
      · simp only [claim, eq]
      · simp only [claimEntry, eq]
        rfl
    | ok =>
      refine .inr ⟨o, mem, row, ?_, ?_⟩
      · simp only [claim, eq]
        split <;> rfl
      · simp only [claimEntry, eq]
        rfl

theorem claim_jobs (codec : EventCodec) (outbox : List (OutboxRow codec.Payload))
    (target : String) (d : Duration) (token : String) (locked : List (Nat × String)) (now : Time)
    (answer : Answer) :
    (claim codec outbox target d token locked now answer).1.map OutboxRow.job =
      outbox.map OutboxRow.job := by
  rcases claim_effect codec outbox target d token locked now answer with ⟨eq, _⟩ | ⟨o, _, _, eq, _⟩
  · rw [eq]
  · rw [eq]
    exact Rows.map_update OutboxRow.job (lease_job token now d) outbox

/-- The table a `Complete` or a `Retry` leaves. -/
theorem finish_table (outbox : List (OutboxRow P)) (d : Delivery) (set : OutboxRow P → OutboxRow P)
    (answer : Answer) :
    (finish outbox d set answer).1 = if answer = .failed then outbox
      else Rows.update (leased d) set outbox := by
  cases answer <;> rfl

theorem finish_jobs (outbox : List (OutboxRow P)) (d : Delivery) {set : OutboxRow P → OutboxRow P}
    (same : ∀ o, (set o).job = o.job) (answer : Answer) :
    (finish outbox d set answer).1.map OutboxRow.job = outbox.map OutboxRow.job := by
  rw [finish_table]
  split
  · rfl
  · exact Rows.map_update OutboxRow.job same outbox

theorem complete_jobs (outbox : List (OutboxRow P)) (d : Delivery) (now : Time) (answer : Answer) :
    (complete outbox d now answer).1.map OutboxRow.job = outbox.map OutboxRow.job :=
  finish_jobs outbox d (delivered_job now) answer

theorem retry_jobs (outbox : List (OutboxRow P)) (d : Delivery) (delay : Duration) (now : Time)
    (answer : Answer) :
    (retry outbox d delay now answer).1.map OutboxRow.job = outbox.map OutboxRow.job :=
  finish_jobs outbox d (released_job now delay) answer

end OtusApp.Storage
