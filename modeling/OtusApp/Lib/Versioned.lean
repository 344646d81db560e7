import Mathlib.Data.List.Basic

/-!
# A register with versions

The history of one register lists its changes, newest first, each under the version it was made at.
`asOf` is the last change before a version, `pending` the changes from a version on, in their order.
A follower that has seen a register as of a version and replays a batch of what is pending has seen
it as of a later one: `asOf_batch`, for any relation between the follower and what it has seen.
-/

namespace Versioned

universe u v

/-- A change of the register. -/
structure Change (α : Type u) where
  version : Nat
  value : α
deriving DecidableEq, Repr

variable {α : Type u} {S : Type v}

/-- The last change before a version. -/
def asOf (log : List (Change α)) (version : Nat) : Option (Change α) :=
  log.find? fun c => c.version < version

/-- The changes from a version on, oldest first. -/
def pending (log : List (Change α)) (version : Nat) : List (Change α) :=
  (log.filter fun c => version ≤ c.version).reverse

/-- The version after a batch of changes. -/
def following (batch : List (Change α)) (version : Nat) : Nat :=
  (batch.getLast?.map fun c => c.version + 1).getD version

/-- Versions decrease along the history. -/
def Ordered (log : List (Change α)) : Prop := log.Pairwise fun a b => b.version < a.version

/-- A change from the version on is not before it. -/
theorem asOf_cons {c : Change α} {version : Nat} (later : version ≤ c.version)
    (log : List (Change α)) : asOf (c :: log) version = asOf log version := by
  have skip : ¬ c.version < version := Nat.not_lt.mpr later
  simp only [asOf, List.find?_cons, skip, decide_false]

/-- Past the whole history stands its last change. -/
theorem asOf_all {log : List (Change α)} {version : Nat}
    (past : ∀ c ∈ log, c.version < version) : asOf log version = log.head? := by
  cases log with
  | nil => rfl
  | cons c rest =>
    have here : c.version < version := past c List.mem_cons_self
    simp only [asOf, List.find?_cons, here, decide_true, List.head?_cons]

/-- The first pending change is the last one once it is past. -/
theorem asOf_pending {log : List (Change α)} (ordered : Ordered log) {version : Nat} {c : Change α}
    {rest : List (Change α)} (h : pending log version = c :: rest) :
    asOf log (c.version + 1) = some c ∧ pending log (c.version + 1) = rest := by
  induction log generalizing rest with
  | nil => cases h
  | cons d log ih =>
    obtain ⟨newest, ordered⟩ := List.pairwise_cons.mp ordered
    by_cases held : version ≤ d.version
    · have split : pending (d :: log) version = pending log version ++ [d] := by
        simp only [pending, List.filter_cons, held, decide_true, if_true, List.reverse_cons]
      rw [split] at h
      cases before : pending log version with
      | nil =>
        -- `d` is the only pending change
        rw [before] at h
        cases h
        refine ⟨by simp [asOf], ?_⟩
        have none : ∀ x ∈ log, ¬ c.version + 1 ≤ x.version := by
          intro x hx
          have := newest x hx
          omega
        simp only [pending, List.filter_cons, List.reverse_eq_nil_iff]
        rw [if_neg (by simp), List.filter_eq_nil_iff]
        simpa using none
      | cons e tail =>
        rw [before] at h
        obtain ⟨rfl, rfl⟩ := List.cons.inj h
        obtain ⟨last, others⟩ := ih ordered before
        have mem : e ∈ log := (List.mem_filter.mp (List.mem_reverse.mp
          (before ▸ List.mem_cons_self : e ∈ pending log version))).1
        have later : e.version + 1 ≤ d.version := newest e mem
        refine ⟨by rw [asOf_cons later]; exact last, ?_⟩
        rw [← others]
        simp only [pending, List.filter_cons, later, decide_true, if_true, List.reverse_cons]
        rfl
    · have skip : pending (d :: log) version = pending log version := by
        simp only [pending, List.filter_cons, held, decide_false, Bool.false_eq_true, if_false]
      -- nothing older than a change before the version is pending
      have empty : pending log version = [] := by
        simp only [pending, List.reverse_eq_nil_iff, List.filter_eq_nil_iff, decide_eq_true_eq]
        intro x hx
        have := newest x hx
        omega
      rw [skip, empty] at h
      cases h

/-- **Replaying a batch.** A relation between a follower and the last change it has seen, which each
change establishes anew, holds after any batch of the pending changes. -/
theorem asOf_batch {R : S → Option (Change α) → Prop} {apply : S → Change α → S}
    (seen : ∀ s last c, R s last → R (apply s c) (some c)) {log : List (Change α)}
    (ordered : Ordered log) (n : Nat) :
    ∀ {version : Nat} {s : S}, R s (asOf log version) →
      R (((pending log version).take n).foldl apply s)
        (asOf log (following ((pending log version).take n) version)) := by
  induction n with
  | zero =>
    intro version s h
    exact h
  | succ n ih =>
    intro version s h
    cases first : pending log version with
    | nil => exact h
    | cons c rest =>
      obtain ⟨last, others⟩ := asOf_pending ordered first
      have passed : R (apply s c) (asOf log (c.version + 1)) := by
        rw [last]
        exact seen s _ c h
      have next := ih passed
      rw [others] at next
      rw [List.take_succ_cons, List.foldl_cons]
      cases batch : rest.take n with
      | nil =>
        rw [batch] at next
        exact next
      | cons d more =>
        rw [batch] at next
        have same : following (c :: d :: more) version = following (d :: more) (c.version + 1) := by
          simp [following, List.getLast?_cons]
        rw [same]
        exact next

/-- The last change of a batch is that of the register as of the version after it. -/
theorem asOf_following {log : List (Change α)} (ordered : Ordered log) {n version : Nat}
    {c : Change α} (last : ((pending log version).take n).getLast? = some c) :
    asOf log (following ((pending log version).take n) version) = some c := by
  have replayed : ((pending log version).take n).foldl (fun _ c => some c) (asOf log version) =
      asOf log (following ((pending log version).take n) version) :=
    asOf_batch (R := fun s last => s = last) (fun _ _ _ _ => rfl) ordered n rfl
  rw [← replayed]
  obtain ⟨before, batch⟩ := List.getLast?_eq_some_iff.mp last
  rw [batch, List.foldl_append, List.foldl_cons, List.foldl_nil]

end Versioned
