import Mathlib.Algebra.GroupWithZero.Nat
import Mathlib.Data.List.Basic
import Mathlib.Data.List.Forall2
import Mathlib.Data.List.Nodup
import Mathlib.Data.List.Perm.Basic

/-!
# Tables as lists of rows

`update` is what a statement `UPDATE ... SET ... WHERE ...` does to a table: every row the
condition selects is rewritten in place, no row is added or removed. A key is a function on rows;
a table whose keys are distinct holds at most one row of each.
-/

namespace Rows

universe u v

variable {α : Type u} {κ : Type v}

/-- Rewrite the rows a condition selects. -/
def update (select : α → Bool) (set : α → α) (rows : List α) : List α :=
  rows.map fun r => if select r then set r else r

theorem mem_update {select : α → Bool} {set : α → α} {rows : List α} {r : α}
    (h : r ∈ update select set rows) :
    ∃ old ∈ rows, (select old = true ∧ r = set old) ∨ (select old = false ∧ r = old) := by
  obtain ⟨old, hold, rfl⟩ := List.mem_map.mp h
  cases hs : select old with
  | true => exact ⟨old, hold, .inl ⟨hs, rfl⟩⟩
  | false => exact ⟨old, hold, .inr ⟨hs, rfl⟩⟩

theorem mem_update_of_selected {select : α → Bool} {set : α → α} {rows : List α} {old : α}
    (h : old ∈ rows) (hs : select old = true) : set old ∈ update select set rows :=
  List.mem_map.mpr ⟨old, h, by simp only [hs, if_true]⟩

theorem mem_update_of_kept {select : α → Bool} {set : α → α} {rows : List α} {old : α}
    (h : old ∈ rows) (hs : select old = false) : old ∈ update select set rows :=
  List.mem_map.mpr ⟨old, h, by simp only [hs, Bool.false_eq_true, if_false]⟩

/-- A column the rewriting leaves alone is the same column after the update. -/
theorem map_update {β : Type v} {select : α → Bool} {set : α → α} (column : α → β)
    (same : ∀ r, column (set r) = column r) (rows : List α) :
    (update select set rows).map column = rows.map column := by
  rw [update, List.map_map]
  refine List.map_congr_left fun r _ => ?_
  cases hs : select r with
  | true => simp only [Function.comp_apply, hs, if_true, same]
  | false => simp only [Function.comp_apply, hs, Bool.false_eq_true, if_false]

/-- An update whose condition selects no row changes nothing. -/
theorem update_eq_self {select : α → Bool} {set : α → α} {rows : List α}
    (none : ∀ r ∈ rows, select r = false) : update select set rows = rows := by
  rw [update]
  conv_rhs => rw [← List.map_id rows]
  refine List.map_congr_left fun r hr => ?_
  simp only [none r hr, Bool.false_eq_true, if_false, id]

/-- An update of rows outside a view, to rows outside it, leaves the view alone. -/
theorem filter_update {select keep : α → Bool} {set : α → α} {rows : List α}
    (out : ∀ r ∈ rows, select r = true → keep r = false ∧ keep (set r) = false) :
    (update select set rows).filter keep = rows.filter keep := by
  induction rows with
  | nil => rfl
  | cons r rest ih =>
    have tail := ih fun x hx => out x (List.mem_cons_of_mem _ hx)
    rw [update, List.map_cons]
    cases hs : select r with
    | true =>
      obtain ⟨before, after⟩ := out r List.mem_cons_self hs
      simp only [if_true, List.filter_cons, before, after, Bool.false_eq_true, if_false]
      exact tail
    | false =>
      simp only [Bool.false_eq_true, if_false, List.filter_cons]
      rw [show List.filter keep (List.map _ rest) = _ from tail]

/-- Under distinct keys a row is determined by its key. -/
theorem eq_of_key {key : α → κ} {rows : List α} (distinct : (rows.map key).Nodup) {a b : α}
    (ha : a ∈ rows) (hb : b ∈ rows) (h : key a = key b) : a = b :=
  List.inj_on_of_nodup_map distinct ha hb h

/-- Under distinct keys a table that holds a key holds exactly one row of it. -/
theorem countP_key [DecidableEq κ] {key : α → κ} {rows : List α}
    (distinct : (rows.map key).Nodup) {a : α} (ha : a ∈ rows) :
    rows.countP (fun r => key r = key a) = 1 := by
  have counted : rows.countP (fun r => key r = key a) = (rows.map key).count (key a) := by
    rw [List.count, List.countP_map]
    rfl
  rw [counted]
  exact List.count_eq_one_of_mem distinct (List.mem_map_of_mem ha)

/-- Distinct keys of what some rows carry: two positions carry two keys. -/
theorem ne_of_filterMap {β : Type v} {f : α → Option β} {key : β → κ} {rows : List α}
    (distinct : ((rows.filterMap f).map key).Nodup) {i j : Nat} (ne : i ≠ j) {a b : α}
    (ha : rows[i]? = some a) (hb : rows[j]? = some b) {x y : β} (hx : f a = some x)
    (hy : f b = some y) : key x ≠ key y := by
  rw [List.Nodup, List.pairwise_map, List.pairwise_filterMap, List.pairwise_iff_getElem] at distinct
  obtain ⟨hi, rfl⟩ := List.getElem?_eq_some_iff.mp ha
  obtain ⟨hj, rfl⟩ := List.getElem?_eq_some_iff.mp hb
  rcases Nat.lt_or_gt_of_ne ne with lt | gt
  · exact distinct i j hi hj lt x hx y hy
  · exact (distinct j i hj hi gt y hy x hx).symm

theorem filterMap_cons_toList {β : Type v} (f : α → Option β) (a : α) (l : List α) :
    (a :: l).filterMap f = (f a).toList ++ l.filterMap f := by
  rw [List.filterMap_cons]
  cases f a <;> rfl

/-- What a list has at a position, it has there with more behind. -/
theorem getElem?_append_some {l : List α} {i : Nat} {a : α} (h : l[i]? = some a) (rest : List α) :
    (l ++ rest)[i]? = some a := by
  rw [List.getElem?_append_left (List.getElem?_eq_some_iff.mp h).1]
  exact h

/-- Something is set where something was. -/
theorem getElem?_set {l : List α} {i : Nat} {a : α} (h : l[i]? = some a) (b : α) :
    (l.set i b)[i]? = some b :=
  List.getElem?_set_self (List.getElem?_eq_some_iff.mp h).1

/-- Setting what is there changes nothing. -/
theorem set_same {l : List α} {i : Nat} {a : α} (h : l[i]? = some a) : l.set i a = l := by
  obtain ⟨bound, rfl⟩ := List.getElem?_eq_some_iff.mp h
  exact List.set_getElem_self bound

/-- What stands where something was set. -/
theorem getElem?_set_some {l : List α} {i : Nat} {a b : α} (h : (l.set i a)[i]? = some b) :
    b = a := by
  have bound := (List.getElem?_eq_some_iff.mp h).1
  rw [List.length_set] at bound
  rw [List.getElem?_set_self bound] at h
  exact (Option.some.inj h).symm

/-- A position of a list with one more element is a position of the list, or the last one. -/
theorem getElem?_concat {l : List α} {a b : α} {i : Nat} (h : (l ++ [a])[i]? = some b) :
    l[i]? = some b ∨ (i = l.length ∧ b = a) := by
  rcases Nat.lt_trichotomy i l.length with earlier | rfl | later
  · rw [List.getElem?_append_left earlier] at h
    exact .inl h
  · rw [List.getElem?_concat_length] at h
    exact .inr ⟨rfl, (Option.some.inj h).symm⟩
  · have bound := (List.getElem?_eq_some_iff.mp h).1
    rw [List.length_append, List.length_singleton] at bound
    omega

/-- An element of a list with one more is an element of the list, with the same before it, or the
last one. -/
theorem concat_split {l before after : List α} {a b : α} (h : l ++ [a] = before ++ b :: after) :
    (∃ rest, l = before ++ b :: rest) ∨ (before = l ∧ b = a) := by
  rcases List.eq_nil_or_concat' after with rfl | ⟨rest, c, rfl⟩
  · obtain ⟨same, last⟩ := List.append_inj' h rfl
    cases last
    exact .inr ⟨same.symm, rfl⟩
  · rw [← List.cons_append, ← List.append_assoc] at h
    exact .inl ⟨rest, (List.append_inj' h rfl).1⟩

theorem filterMap_concat {β : Type v} (f : α → Option β) (l : List α) (a : α) :
    (l ++ [a]).filterMap f = l.filterMap f ++ (f a).toList := by
  rw [List.filterMap_append, List.filterMap_eq_flatMap_toList f [a], List.flatMap_singleton]

/-- A position of a list splits it, and writing there changes that element only. -/
theorem split_at {l : List α} {i : Nat} {a : α} (h : l[i]? = some a) :
    ∃ before after, l = before ++ a :: after ∧ before.length = i ∧
      ∀ b, l.set i b = before ++ b :: after := by
  obtain ⟨hi, ha⟩ := List.getElem?_eq_some_iff.mp h
  have hlen : (l.take i).length = i := List.length_take_of_le (Nat.le_of_lt hi)
  have hl : l = l.take i ++ a :: l.drop (i + 1) := by
    rw [← ha, ← List.drop_eq_getElem_cons hi, List.take_append_drop]
  refine ⟨l.take i, l.drop (i + 1), hl, hlen, fun b => ?_⟩
  rw [List.set_eq_take_append_cons_drop, if_pos hi]

/-- There are no more elements of a kind than positions at which they stand. -/
theorem countP_le_positions {l : List α} {p : α → Bool} {positions : List Nat}
    (h : ∀ (i : Nat) a, l[i]? = some a → p a = true → i ∈ positions) :
    l.countP p ≤ positions.length := by
  have distinct : ((l.zipIdx.filter fun x => p x.1).map Prod.snd).Nodup := by
    refine List.Nodup.sublist (List.filter_sublist.map Prod.snd) ?_
    rw [List.zipIdx_map_snd]
    exact List.nodup_range'
  have among : (l.zipIdx.filter fun x => p x.1).map Prod.snd ⊆ positions := by
    intro i mem
    obtain ⟨⟨a, j⟩, hx, rfl⟩ := List.mem_map.mp mem
    obtain ⟨entry, kind⟩ := List.mem_filter.mp hx
    exact h j a (List.mk_mem_zipIdx_iff_getElem?.mp entry) kind
  have count : l.countP p = ((l.zipIdx.filter fun x => p x.1).map Prod.snd).length := by
    rw [List.length_map, ← List.countP_eq_length_filter]
    conv_lhs => rw [← List.zipIdx_map_fst 0 l]
    exact List.countP_map
  rw [count]
  exact (List.subperm_of_subset distinct among).length_le

/-- What a sum over a list becomes when one element is rewritten, and the others count as before. -/
theorem sum_map_set {f g : α → Nat} {l : List α} {i : Nat} {a : α} (h : l[i]? = some a) (b : α)
    (agree : ∀ k c, k ≠ i → l[k]? = some c → g c = f c) :
    ((l.set i b).map g).sum + f a = (l.map f).sum + g b := by
  induction l generalizing i with
  | nil => cases h
  | cons x rest ih =>
    cases i with
    | zero =>
      cases h
      have others : rest.map g = rest.map f := by
        refine List.map_congr_left fun c mem => ?_
        obtain ⟨k, entry⟩ := List.mem_iff_getElem?.mp mem
        exact agree (k + 1) c (Nat.succ_ne_zero k) entry
      rw [List.set_cons_zero, List.map_cons, List.map_cons, List.sum_cons, List.sum_cons, others]
      omega
    | succ i =>
      have head : g x = f x := agree 0 x (Nat.succ_ne_zero i).symm rfl
      have tail := ih h fun k c ne entry => agree (k + 1) c (by omega) entry
      rw [List.set_cons_succ, List.map_cons, List.map_cons, List.sum_cons, List.sum_cons, head]
      omega

/-- A sum of ones is a count. -/
theorem sum_map_ite (p : α → Prop) [DecidablePred p] (l : List α) :
    (l.map fun a => if p a then 1 else 0).sum = l.countP p := by
  induction l with
  | nil => rfl
  | cons a rest ih =>
    rw [List.map_cons, List.sum_cons, List.countP_cons, ih, Nat.add_comm]
    simp only [decide_eq_true_eq]

/-- Related lists have related elements at each position. -/
theorem forall₂_getElem? {β : Type v} {r : α → β → Prop} {l : List α} {l' : List β}
    (h : List.Forall₂ r l l') (i : Nat) : Option.Rel r l[i]? l'[i]? := by
  induction h generalizing i with
  | nil => exact .none
  | cons first _ ih =>
    cases i with
    | zero => exact .some first
    | succ i => exact ih i

/-- Related elements written at one position. -/
theorem forall₂_set {β : Type v} {r : α → β → Prop} {l : List α} {l' : List β}
    (h : List.Forall₂ r l l') (i : Nat) {a : α} {b : β} (related : r a b) :
    List.Forall₂ r (l.set i a) (l'.set i b) := by
  induction h generalizing i with
  | nil => exact .nil
  | cons first rest ih =>
    cases i with
    | zero => exact .cons related rest
    | succ i => exact .cons first (ih i)

end Rows
