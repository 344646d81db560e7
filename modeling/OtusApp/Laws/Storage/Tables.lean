import OtusApp.Storage.Tables

/-!
# Facts about the tables

A migrated row carries a checksum, a lookup by key finds a row under that key, the rows of
`messages` that some transaction has written stay distinct in identifier and key when one is
inserted, dropped or moved from a transaction into the table, and the list holds the newest of them.
-/

namespace OtusApp.Storage

open Messaging

/-! ## Checksums -/

/-- A checksum is not the empty string that `migrate` looks for. -/
theorem checksum_ne_empty (text : String) : checksum text ≠ "" := by
  refine Go.hexEncode_ne_empty ?_
  simp [Go.Sha256.sum256, Go.Sha256.Digest.words, Go.Sha256.wordBytes]

/-- Every migrated row carries a checksum. -/
theorem textHash_of_mem_migrate {messages : List MessageRow} {r : MessageRow}
    (h : r ∈ migrate messages) : r.textHash ≠ "" := by
  obtain ⟨old, _, ⟨_, rfl⟩ | ⟨kept, rfl⟩⟩ := Rows.mem_update h
  · exact checksum_ne_empty old.text
  · simpa only [decide_eq_false_iff_not] using kept

/-- A migration has nothing to do on rows that carry their checksums. -/
theorem migrate_eq_self {messages : List MessageRow} (h : ∀ r ∈ messages, r.textHash ≠ "") :
    migrate messages = messages :=
  Rows.update_eq_self fun r hr => decide_eq_false (h r hr)

/-! ## Keys -/

@[simp] theorem nullIf_empty : nullIf "" = none := rfl

theorem nullIf_of_ne {key : String} (h : key ≠ "") : nullIf key = some key := if_neg h

theorem nullIf_eq_some {key k : String} (h : nullIf key = some k) : key = k ∧ key ≠ "" := by
  unfold nullIf at h
  split at h
  · cases h
  · next ne =>
    cases h
    exact ⟨rfl, ne⟩

/-- A row found by key is in the table, under that key. -/
theorem byKey_some {messages : List MessageRow} {key : String} {r : MessageRow}
    (h : byKey messages key = some r) : r ∈ messages ∧ r.idemKey = some key :=
  ⟨List.mem_of_find?_eq_some h, by simpa only [decide_eq_true_eq] using List.find?_some h⟩

/-- A key not found is under no row. -/
theorem byKey_none {messages : List MessageRow} {key : String} (h : byKey messages key = none) :
    ∀ r ∈ messages, r.idemKey ≠ some key := by
  intro r hr
  simpa only [decide_eq_true_eq] using List.find?_eq_none.mp h r hr

/-- `nextval` moves the sequence on by one. -/
theorem nextval_some {seq id : Nat} (h : nextval seq = some id) : id = seq + 1 := by
  unfold nextval at h
  split at h
  · exact (Option.some.inj h).symm
  · cases h

/-! ## Distinct rows -/

/-- Rows with distinct identifiers and keys, none past the sequence. -/
structure Distinct (rows : List MessageRow) (seq : Nat) : Prop where
  ids : (rows.map MessageRow.id).Nodup
  keys : (rows.filterMap MessageRow.idemKey).Nodup
  bounded : ∀ r ∈ rows, r.id ≤ seq

namespace Distinct

variable {rows rows' : List MessageRow} {seq seq' : Nat}

theorem perm (h : Distinct rows seq) (p : rows.Perm rows') : Distinct rows' seq where
  ids := (p.map MessageRow.id).nodup_iff.mp h.ids
  keys := (p.filterMap MessageRow.idemKey).nodup_iff.mp h.keys
  bounded r hr := h.bounded r (p.mem_iff.mpr hr)

/-- Dropping rows keeps the others distinct. -/
theorem sublist (h : Distinct rows seq) (sub : rows'.Sublist rows) : Distinct rows' seq where
  ids := (sub.map MessageRow.id).nodup h.ids
  keys := (sub.filterMap MessageRow.idemKey).nodup h.keys
  bounded r hr := h.bounded r (sub.subset hr)

theorem mono (h : Distinct rows seq) (le : seq ≤ seq') : Distinct rows seq' where
  ids := h.ids
  keys := h.keys
  bounded r hr := Nat.le_trans (h.bounded r hr) le

/-- A row past the sequence, under a key no row has, can be added. -/
theorem cons (h : Distinct rows seq) {r : MessageRow} (next : r.id = seq + 1)
    (unused : ∀ k, r.idemKey = some k → ∀ old ∈ rows, old.idemKey ≠ some k) :
    Distinct (r :: rows) (seq + 1) := by
  refine ⟨?_, ?_, ?_⟩
  · refine List.nodup_cons.mpr ⟨fun mem => ?_, h.ids⟩
    obtain ⟨old, hold, same⟩ := List.mem_map.mp mem
    have bound := h.bounded old hold
    omega
  · cases hk : r.idemKey with
    | none => simpa only [List.filterMap_cons, hk] using h.keys
    | some k =>
      rw [List.filterMap_cons_some hk]
      refine List.nodup_cons.mpr ⟨fun mem => ?_, h.keys⟩
      obtain ⟨old, hold, same⟩ := List.mem_filterMap.mp mem
      exact unused k hk old hold same
  · intro old hold
    rcases List.mem_cons.mp hold with rfl | hold
    · omega
    · exact Nat.le_succ_of_le (h.bounded old hold)

/-- Two rows under one key are one row. -/
theorem eq_of_key (h : Distinct rows seq) {a b : MessageRow} (ha : a ∈ rows) (hb : b ∈ rows)
    {k : String} (hak : a.idemKey = some k) (hbk : b.idemKey = some k) : a = b := by
  have keys := h.keys
  clear h
  induction rows with
  | nil => cases ha
  | cons r rest ih =>
    -- whichever of the two stands first, the other's key is not among the rest
    have fresh : ∀ x ∈ rest, r.idemKey = some k → x.idemKey ≠ some k := by
      intro x hx hr hxk
      rw [List.filterMap_cons_some hr] at keys
      exact (List.nodup_cons.mp keys).1 (List.mem_filterMap.mpr ⟨x, hx, hxk⟩)
    rcases List.mem_cons.mp ha with rfl | inRest
    · rcases List.mem_cons.mp hb with rfl | inRest
      · rfl
      · exact absurd hbk (fresh b inRest hak)
    · rcases List.mem_cons.mp hb with rfl | inRest'
      · exact absurd hak (fresh a inRest hbk)
      · refine ih inRest inRest' ?_
        cases hr : r.idemKey with
        | none => simpa only [List.filterMap_cons, hr] using keys
        | some k' =>
          rw [List.filterMap_cons_some hr] at keys
          exact (List.nodup_cons.mp keys).2

/-- At most one row is under a key. -/
theorem countP_key_le (h : Distinct rows seq) (k : String) :
    rows.countP (fun r => r.idemKey = some k) ≤ 1 := by
  have counted : rows.countP (fun r => r.idemKey = some k) =
      (rows.filterMap MessageRow.idemKey).count k := by
    rw [List.count_filterMap]
    refine List.countP_congr fun r _ => ?_
    simp only [decide_eq_true_eq, beq_iff_eq]
  rw [counted]
  exact List.nodup_iff_count_le_one.mp h.keys k

end Distinct

/-! ## The list -/

/-- The order of `Postgres.List`. -/
private abbrev newer (a b : MessageRow) : Prop := b.id ≤ a.id

private instance : Std.Total newer := ⟨fun a b => Nat.le_total b.id a.id⟩

private instance : IsTrans MessageRow newer := ⟨fun _ _ _ hab hbc => Nat.le_trans hbc hab⟩

/-- The list holds every message that fewer than a hundred are newer than. -/
theorem mem_list {messages : List MessageRow} (ids : (messages.map MessageRow.id).Nodup)
    {row : MessageRow} (hrow : row ∈ messages)
    (newest : messages.countP (fun r => row.id < r.id) < 100) :
    row.message (row.textHash = checksum row.text) ∈ list messages := by
  have perm := List.perm_insertionSort newer messages
  have sorted := List.pairwise_insertionSort newer messages
  rw [← (perm.map MessageRow.id).nodup_iff] at ids
  rw [← perm.countP_eq] at newest
  obtain ⟨before, after, split⟩ := List.append_of_mem (perm.mem_iff.mpr hrow)
  have mem : row ∈ (messages.insertionSort newer).take 100 := by
    rw [split] at sorted ids newest ⊢
    -- whatever stands before the row is newer than it
    have ahead : before.countP (fun r => row.id < r.id) = before.length := by
      refine List.countP_eq_length.mpr fun r hr => ?_
      have le : row.id ≤ r.id := (List.pairwise_append.mp sorted).2.2 r hr row List.mem_cons_self
      have ne : r.id ≠ row.id := by
        rw [List.map_append, List.map_cons] at ids
        have apart := (List.nodup_append.mp ids).2.2
        exact apart r.id (List.mem_map_of_mem hr) row.id List.mem_cons_self
      exact decide_eq_true (by omega)
    rw [List.countP_append, ahead] at newest
    obtain ⟨n, room⟩ : ∃ n, 100 - before.length = n + 1 := ⟨99 - before.length, by omega⟩
    rw [List.take_append, room, List.take_succ_cons]
    exact List.mem_append_right _ List.mem_cons_self
  exact List.mem_map_of_mem mem

end OtusApp.Storage
