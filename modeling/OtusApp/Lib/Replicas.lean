import Mathlib.Data.Finset.Card
import Mathlib.Data.List.Basic

/-!
# Writes on replicas

Each replica holds writes, and what a replica holds it keeps. A write is `Stored` when enough
replicas hold it, and a read `merged` what some of the replicas hold. Where the two numbers together
exceed that of the replicas, a read finds every stored write (`Stored.merged`).

A column of a row is then that of the newest write, and of the greater value among equally new ones
(`newest`). So it depends on which writes there are and not on their order (`newest_congr`).
-/

namespace Replicas

variable {R W α : Type} [DecidableEq R]

/-- What the replicas of `q` hold together. -/
def merged (held : List (R × W)) (q : Finset R) : List W :=
  (held.filter fun x => x.1 ∈ q).map Prod.snd

theorem mem_merged {held : List (R × W)} {q : Finset R} {w : W} :
    w ∈ merged held q ↔ ∃ r ∈ q, (r, w) ∈ held := by
  simp [merged, and_comm]

/-- Enough replicas hold the write. -/
def Stored [DecidableEq W] (held : List (R × W)) (replicas : Finset R) (enough : Nat) (w : W) :
    Prop :=
  enough ≤ (replicas.filter fun r => (r, w) ∈ held).card

instance [DecidableEq W] (held : List (R × W)) (replicas : Finset R) (enough : Nat) (w : W) :
    Decidable (Stored held replicas enough w) :=
  inferInstanceAs (Decidable (_ ≤ _))

variable [DecidableEq W] {held held' : List (R × W)} {replicas q : Finset R} {enough : Nat} {w : W}

/-- What is stored stays stored. -/
theorem Stored.mono (h : Stored held replicas enough w) (grows : held ⊆ held') :
    Stored held' replicas enough w := by
  refine h.trans (Finset.card_le_card ?_)
  intro r mem
  simp only [Finset.mem_filter] at mem ⊢
  exact ⟨mem.1, grows mem.2⟩

/-- **Overlap.** Among the replicas that are read is one that holds the write. -/
theorem Stored.merged (h : Stored held replicas enough w) (sub : q ⊆ replicas)
    (overlap : replicas.card < enough + q.card) :
    w ∈ merged held q := by
  have more : replicas.card < (replicas.filter fun r => (r, w) ∈ held).card + q.card := by
    have : enough ≤ (replicas.filter fun r => (r, w) ∈ held).card := h
    omega
  obtain ⟨r, both⟩ :=
    Finset.inter_nonempty_of_card_lt_card_add_card (Finset.filter_subset _ _) sub more
  simp only [Finset.mem_inter, Finset.mem_filter] at both
  exact mem_merged.mpr ⟨r, both.2, both.1.2⟩

/-! ## The newest write -/

variable [LinearOrder α] (stamp : W → Nat) (column : W → α)

/-- A write against the column of the newest one so far. -/
def newer (w : W) : Option (Nat × α) → Option (Nat × α)
  | none => some (stamp w, column w)
  | some (time, value) =>
    if time < stamp w ∨ time = stamp w ∧ value < column w then some (stamp w, column w)
    else some (time, value)

/-- The column of the newest write, with the time it was written at. -/
def newest (ws : List W) : Option (Nat × α) := ws.foldr (newer stamp column) none

omit [DecidableEq W]

/-- It is the column of one of the writes, and none is newer. -/
structure Newest (ws : List W) (time : Nat) (value : α) : Prop where
  written : ∃ w ∈ ws, stamp w = time ∧ column w = value
  last : ∀ w ∈ ws, stamp w < time ∨ stamp w = time ∧ column w ≤ value

theorem newest_isSome {ws : List W} (nonempty : ws ≠ []) :
    ∃ time value, newest stamp column ws = some (time, value) := by
  cases ws with
  | nil => exact absurd rfl nonempty
  | cons w rest =>
    simp only [newest, List.foldr_cons, newer]
    split
    · exact ⟨_, _, rfl⟩
    · split <;> exact ⟨_, _, rfl⟩

variable {stamp column}

theorem newest_spec {ws : List W} {time : Nat} {value : α}
    (h : newest stamp column ws = some (time, value)) :
    Newest stamp column ws time value := by
  induction ws generalizing time value with
  | nil => cases h
  | cons w rest ih =>
    cases before : newest stamp column rest with
    | none =>
      have empty : rest = [] := by
        by_contra nonempty
        obtain ⟨_, _, is⟩ := newest_isSome stamp column nonempty
        simp [before] at is
      subst empty
      cases h
      exact ⟨⟨w, by simp, rfl, rfl⟩, by simp⟩
    | some x =>
      obtain ⟨time', value'⟩ := x
      have so_far := ih before
      have step : newer stamp column w (newest stamp column rest) = some (time, value) := h
      rw [before, newer] at step
      split at step
      · next wins =>
        cases step
        refine ⟨⟨w, by simp, rfl, rfl⟩, fun x mem => ?_⟩
        rcases List.mem_cons.mp mem with rfl | old
        · exact .inr ⟨rfl, le_rfl⟩
        · rcases so_far.last x old with less | ⟨same, le⟩
          · rcases wins with more | ⟨equal, _⟩ <;> exact .inl (by omega)
          · rcases wins with more | ⟨equal, greater⟩
            · exact .inl (by omega)
            · exact .inr ⟨by omega, le.trans greater.le⟩
      · next loses =>
        cases step
        obtain ⟨x, mem, at_x⟩ := so_far.written
        refine ⟨⟨x, by simp [mem], at_x⟩, fun y mem => ?_⟩
        rcases List.mem_cons.mp mem with rfl | old
        · by_cases less : stamp y < time
          · exact .inl less
          · refine .inr ⟨by omega, ?_⟩
            by_contra greater
            exact loses (.inr ⟨by omega, not_le.mp greater⟩)
        · exact so_far.last y old

/-- The newest write of two lists with the same writes is one. -/
theorem Newest.unique {ws ws' : List W} {time time' : Nat} {value value' : α}
    (same : ∀ w, w ∈ ws ↔ w ∈ ws') (first : Newest stamp column ws time value)
    (second : Newest stamp column ws' time' value') : time = time' ∧ value = value' := by
  obtain ⟨w, mem, rfl, rfl⟩ := first.written
  obtain ⟨w', mem', rfl, rfl⟩ := second.written
  rcases second.last w ((same w).mp mem) with less | ⟨equal, le⟩
  · rcases first.last w' ((same w').mpr mem') with less' | ⟨equal', _⟩ <;> omega
  · rcases first.last w' ((same w').mpr mem') with less' | ⟨_, ge⟩
    · omega
    · exact ⟨equal, le_antisymm le ge⟩

/-- Only which writes there are matters. -/
theorem newest_congr {ws ws' : List W} (same : ∀ w, w ∈ ws ↔ w ∈ ws') :
    newest stamp column ws = newest stamp column ws' := by
  by_cases empty : ws = []
  · have none' : ws' = [] := List.eq_nil_iff_forall_not_mem.mpr fun w mem => by
      simpa [empty] using (same w).mpr mem
    rw [empty, none']
  · have some' : ws' ≠ [] := by
      rintro rfl
      exact empty (List.eq_nil_iff_forall_not_mem.mpr fun w mem => by simpa using (same w).mp mem)
    obtain ⟨time, value, hx⟩ := newest_isSome stamp column empty
    obtain ⟨time', value', hy⟩ := newest_isSome stamp column some'
    obtain ⟨rfl, rfl⟩ := (newest_spec hx).unique same (newest_spec hy)
    rw [hx, hy]

end Replicas
