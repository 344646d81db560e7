import OtusApp.Lib.Rows
import Mathlib.Data.List.Perm.Basic
import Mathlib.Data.List.Nodup

/-!
# Tables written by key

`put` writes a row under its key and replaces the row that was there. `table` is what a sequence of
writes leaves, the newest write first.

A table has one row for each key that was written, and the row is the last one written there. Where
the writes under a key agree in what a `view` shows, the last one does not matter: what the view
shows of the table is what it shows of the writes (`mem_view`), and two sequences of writes that
show the same leave the same table, in some order (`table_perm`).
-/

namespace Upsert

universe u v w

variable {α : Type u} {κ : Type v} {β : Type w} [DecidableEq κ] {key : α → κ}

/-- Write a row under its key. -/
def put (key : α → κ) (rows : List α) (r : α) : List α := r :: rows.filter fun x => key x ≠ key r

/-- What a sequence of writes leaves, the newest first. -/
def table (key : α → κ) : List α → List α
  | [] => []
  | r :: rest => put key (table key rest) r

theorem mem_put {rows : List α} {r x : α} :
    x ∈ put key rows r ↔ x = r ∨ (x ∈ rows ∧ key x ≠ key r) := by
  simp [put]

theorem nodup_put {rows : List α} (distinct : (rows.map key).Nodup) (r : α) :
    ((put key rows r).map key).Nodup := by
  refine List.nodup_cons.mpr ⟨?_, distinct.sublist (List.filter_sublist.map key)⟩
  intro mem
  obtain ⟨x, hx, same⟩ := List.mem_map.mp mem
  exact of_decide_eq_true (List.mem_filter.mp hx).2 same

theorem nodup_table (key : α → κ) (writes : List α) : ((table key writes).map key).Nodup := by
  induction writes with
  | nil => exact List.nodup_nil
  | cons r rest ih => exact nodup_put ih r

/-- A row of the table was written. -/
theorem mem_of_mem_table {writes : List α} {x : α} (h : x ∈ table key writes) : x ∈ writes := by
  induction writes with
  | nil => cases h
  | cons r rest ih =>
    rcases mem_put.mp h with rfl | ⟨older, _⟩
    · exact List.mem_cons_self
    · exact List.mem_cons_of_mem r (ih older)

/-- A key that was written has a row. -/
theorem exists_mem_table (key : α → κ) {writes : List α} {r : α} (h : r ∈ writes) :
    ∃ x ∈ table key writes, key x = key r := by
  induction writes with
  | nil => cases h
  | cons first rest ih =>
    by_cases same : key r = key first
    · exact ⟨first, mem_put.mpr (.inl rfl), same.symm⟩
    · rcases List.mem_cons.mp h with rfl | older
      · exact absurd rfl same
      · obtain ⟨x, hx, under⟩ := ih older
        exact ⟨x, mem_put.mpr (.inr ⟨hx, under ▸ same⟩), under⟩

/-- One row for each value of a column that goes with the key. -/
theorem countP_column [DecidableEq β] {column : α → β} {writes : List α}
    (goes : ∀ a ∈ writes, ∀ b ∈ writes, column a = column b ↔ key a = key b) {r : α}
    (h : r ∈ writes) : (table key writes).countP (fun x => column x = column r) = 1 := by
  obtain ⟨row, hrow, under⟩ := exists_mem_table key h
  have same : (table key writes).countP (fun x => column x = column r) =
      (table key writes).countP fun x => key x = key row := by
    refine List.countP_congr fun x hx => ?_
    simp only [decide_eq_true_eq, under]
    exact goes x (mem_of_mem_table hx) r h
  rw [same]
  exact Rows.countP_key (nodup_table key writes) hrow

/-- Writes under one key show the same. -/
def Agree (key : α → κ) (view : α → β) (writes : List α) : Prop :=
  ∀ a ∈ writes, ∀ b ∈ writes, key a = key b → view a = view b

/-- What the table shows is what the writes show. -/
theorem mem_view {view : α → β} {writes : List α} (agree : Agree key view writes) (v : β) :
    v ∈ (table key writes).map view ↔ v ∈ writes.map view := by
  constructor
  · intro mem
    obtain ⟨x, hx, rfl⟩ := List.mem_map.mp mem
    exact List.mem_map_of_mem (mem_of_mem_table hx)
  · intro mem
    obtain ⟨r, hr, rfl⟩ := List.mem_map.mp mem
    obtain ⟨x, hx, under⟩ := exists_mem_table key hr
    exact List.mem_map.mpr ⟨x, hx, agree x (mem_of_mem_table hx) r hr under⟩

/-- A view that shows the key shows no row twice. -/
theorem nodup_view {view : α → β} (shows : ∀ a b, view a = view b → key a = key b)
    (writes : List α) : ((table key writes).map view).Nodup := by
  have distinct := List.pairwise_map.mp (nodup_table key writes)
  refine List.pairwise_map.mpr (distinct.imp ?_)
  intro a b ne same
  exact ne (shows a b same)

/-- **Only the set of writes matters.** -/
theorem table_perm {view : α → β} (shows : ∀ a b, view a = view b → key a = key b)
    {writes writes' : List α} (agree : Agree key view writes) (agree' : Agree key view writes')
    (same : ∀ v, v ∈ writes.map view ↔ v ∈ writes'.map view) :
    ((table key writes).map view).Perm ((table key writes').map view) := by
  refine (List.perm_ext_iff_of_nodup (nodup_view shows writes) (nodup_view shows writes')).mpr ?_
  intro v
  rw [mem_view agree, mem_view agree', same]

end Upsert
