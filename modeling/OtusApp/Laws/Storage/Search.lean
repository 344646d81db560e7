import OtusApp.Cstore.Store
import OtusApp.Storage.Search

/-!
# The two searches for a part of a text

`Scan` compares texts, `Search` puts the query into a pattern. For a query without marks both find
the messages that contain it (`agree_of_searchable`); for every other query there is a message that
only one of them finds.
-/

namespace OtusApp.Storage

open Messaging Cstore Like

variable {fold : Char → Char} {query : String} {limit : Int} {messages : List MessageRow}
    {rows : List EventRow}

/-- A text contains the query, whatever the case. -/
def Contains (fold : Char → Char) (query text : String) : Prop :=
  (lowered fold query).toList <:+: (lowered fold text).toList

/-- Messages that are in both stores. -/
structure Both (messages : List MessageRow) (rows : List EventRow) : Prop where
  ids : (messages.map MessageRow.id).Nodup
  same : (messages.map fun r => (r.id, r.text)).Perm (rows.map fun ev => (ev.id, ev.text))

/-! ## `Scan` -/

theorem scanLoop_found (lower : String → String) (needle : String) {found : List EventRow}
    {scanned : Nat} (room : (found.length + rows.length : Int) ≤ limit) :
    (scanLoop lower needle limit (found, scanned) rows).1 =
      found ++ rows.filter fun ev => needle.toList <:+: (lower ev.text).toList := by
  induction rows generalizing found scanned with
  | nil => simp [scanLoop]
  | cons ev rest ih =>
    have length : (List.length (ev :: rest) : Int) = rest.length + 1 := by simp
    rw [length] at room
    rw [scanLoop]
    by_cases here : needle.toList <:+: (lower ev.text).toList
    · have taken : (found.length : Int) < limit ∧ needle.toList <:+: (lower ev.text).toList :=
        ⟨by omega, here⟩
      rw [if_pos taken, ih, List.filter_cons_of_pos (by simpa using here), List.append_assoc,
        List.singleton_append]
      rw [List.length_append, List.length_singleton]
      omega
    · rw [if_neg fun taken => here taken.2, ih, List.filter_cons_of_neg (by simpa using here)]
      omega

/-- With room for all rows, `Scan` finds those that contain the query. -/
theorem mem_scan (room : (rows.length : Int) ≤ limit) (id : Nat) :
    id ∈ (scan (lowered fold) query limit rows).1.map EventRow.id ↔
      ∃ ev ∈ rows, ev.id = id ∧ Contains fold query ev.text := by
  rw [scan, scanLoop_found _ _ (by simpa using room)]
  simp only [List.nil_append, List.mem_map, List.mem_filter, decide_eq_true_eq, Contains]
  apply exists_congr
  intro ev
  rw [and_assoc, and_comm (a := ev.id = id)]

/-! ## `Search` -/

theorem lowered_within (keeps : Keeps likeMarks fold) (query : String) :
    (lowered fold ("%" ++ query ++ "%")).toList = within likeMarks (query.toList.map fold) := by
  have pattern : ("%" ++ query ++ "%").toList = within likeMarks query.toList := by
    rw [String.toList_append, String.toList_append, List.append_assoc]
    rfl
  rw [lowered, String.toList_ofList, pattern, keeps.within]

/-- With room for all messages, `Search` finds those that its pattern matches. -/
theorem search_found (keeps : Keeps likeMarks fold) {pattern : List (Token Char)}
    (reads : tokens likeMarks (within likeMarks (query.toList.map fold)) = some pattern)
    (noNul : '\x00' ∉ query.toList) (room : (messages.length : Int) ≤ limit) :
    ∃ found, search fold query limit messages = some found ∧ ∀ id, id ∈ found.map Message.id ↔
      ∃ r ∈ messages, r.id = id ∧ Token.matches_ pattern (lowered fold r.text).toList = true := by
  have admitted : ¬('\x00' ∈ query.toList ∨ limit < 0) := by
    rintro (nul | negative)
    · exact noNul nul
    · omega
  refine ⟨newest (fun r => Token.matches_ pattern (lowered fold r.text).toList) limit.toNat
    messages, ?_, fun id => ?_⟩
  · rw [search, if_neg admitted, lowered_within keeps, reads, Option.map_some]
  · have all : (messages.filter fun r =>
        Token.matches_ pattern (lowered fold r.text).toList).length ≤ limit.toNat := by
      have :=
        List.length_filter_le (fun r =>
          Token.matches_ pattern (lowered fold r.text).toList) messages
      omega
    rw [newest, List.take_of_length_le (by rwa [List.length_insertionSort])]
    simp only [List.map_map, List.mem_map, List.mem_insertionSort, List.mem_filter,
      Function.comp_apply]
    apply exists_congr
    intro r
    rw [and_assoc, and_comm (a := r.id = id)]
    rfl

/-! ## Both -/

/-- Both searches find the messages that contain the query. -/
def Agree (fold : Char → Char) (query : String) (limit : Int) (messages : List MessageRow)
    (rows : List EventRow) :
    Prop :=
  ∃ found, search fold query limit messages = some found ∧
    (∀ id, id ∈ found.map Message.id ↔
      id ∈ (scan (lowered fold) query limit rows).1.map EventRow.id) ∧
    ∀ id, id ∈ found.map Message.id ↔ ∃ r ∈ messages, r.id = id ∧ Contains fold query r.text

/-- Messages in both stores have the same texts. -/
theorem Both.exists_iff (both : Both messages rows) (P : Nat → String → Prop) :
    (∃ r ∈ messages, P r.id r.text) ↔ ∃ ev ∈ rows, P ev.id ev.text := by
  have pairs := fun pair => both.same.mem_iff (a := pair)
  simp only [List.mem_map] at pairs
  constructor
  · rintro ⟨r, mem, holds⟩
    obtain ⟨ev, there, same⟩ := (pairs (r.id, r.text)).mp ⟨r, mem, rfl⟩
    cases Prod.mk.inj same with
    | intro id text => exact ⟨ev, there, by rwa [id, text]⟩
  · rintro ⟨ev, mem, holds⟩
    obtain ⟨r, there, same⟩ := (pairs (ev.id, ev.text)).mpr ⟨ev, mem, rfl⟩
    cases Prod.mk.inj same with
    | intro id text => exact ⟨r, there, by rwa [id, text]⟩

/-- A query that is looked for as it is written. -/
def Searchable (query : String) : Prop :=
  ∀ c ∈ query.toList, c ≠ '%' ∧ c ≠ '_' ∧ c ≠ '\\' ∧ c ≠ '\x00'

theorem searchable_iff :
    Searchable query ↔ Literal likeMarks query.toList ∧ '\x00' ∉ query.toList := by
  constructor
  · intro h
    exact ⟨fun c mem => ⟨(h c mem).1, (h c mem).2.1, (h c mem).2.2.1⟩,
      fun nul => (h _ nul).2.2.2 rfl⟩
  · rintro ⟨literal, noNul⟩ c mem
    obtain ⟨any, one, escape⟩ := literal c mem
    exact ⟨any, one, escape, fun nul => noNul (nul ▸ mem)⟩

theorem agree_of_searchable (keeps : Keeps likeMarks fold) (h : Searchable query)
    (both : Both messages rows) (room : (messages.length : Int) ≤ limit) :
    Agree fold query limit messages rows := by
  obtain ⟨literal, noNul⟩ := searchable_iff.mp h
  obtain ⟨pattern, reads, finds⟩ := matches_literal ((keeps.literal _).mpr literal)
  obtain ⟨found, searched, ids⟩ := search_found keeps reads noNul room
  have contained : ∀ id, id ∈ found.map Message.id ↔ ∃ r ∈ messages, r.id = id ∧
      Contains fold query r.text := by
    intro id
    rw [ids]
    simp only [finds, Contains, lowered, String.toList_ofList]
  have rowsRoom : (rows.length : Int) ≤ limit := by
    have lengths := both.same.length_eq
    rw [List.length_map, List.length_map] at lengths
    omega
  refine ⟨found, searched, fun id => ?_, contained⟩
  rw [contained, mem_scan rowsRoom]
  exact both.exists_iff fun i text => i = id ∧ Contains fold query text

/-- A message with one text, in both stores. -/
theorem both_single (text : String) : Both [⟨1, text, "", none, 0⟩] [⟨1, text, "", "", 0⟩] :=
  ⟨List.nodup_singleton 1, List.Perm.refl _⟩

/-- The change of case of ASCII. -/
theorem keeps_toLower : Keeps likeMarks Char.toLower := by
  have apart : ∀ c mark : Char, mark.toNat < 65 ∨ (90 < mark.toNat ∧ mark.toNat < 97) →
      (c.toLower = mark ↔ c = mark) := by
    intro c mark small
    unfold Char.toLower
    split
    · next upper =>
      obtain ⟨low, high⟩ := upper
      rw [ge_iff_le, UInt32.le_iff_toNat_le] at low
      rw [UInt32.le_iff_toNat_le] at high
      have lowest : 'A'.val.toNat = 65 := rfl
      have highest : 'Z'.val.toNat = 90 := rfl
      have shift : ('a'.val - 'A'.val).toNat = 32 := rfl
      have number : c.val.toNat = c.toNat := rfl
      have shifted : (c.val + ('a'.val - 'A'.val)).toNat = c.toNat + 32 := by
        rw [UInt32.toNat_add, shift]
        omega
      constructor
      · rintro rfl
        change (c.val + ('a'.val - 'A'.val)).toNat < 65 ∨
          (90 < (c.val + ('a'.val - 'A'.val)).toNat ∧
            (c.val + ('a'.val - 'A'.val)).toNat < 97) at small
        omega
      · rintro rfl
        omega
    · exact Iff.rfl
  intro c
  exact ⟨apart c '%' (by decide), apart c '_' (by decide), apart c '\\' (by decide)⟩

/-- **The two searches.** For a change of case that leaves the marks alone, `Search` and `Scan` find
the same messages in every pair of stores, those that contain the query, exactly where the query has
no mark and no NUL. -/
theorem engines_agree (keeps : Keeps likeMarks fold) :
    (∀ messages rows limit, Both messages rows → (messages.length : Int) ≤ limit →
      Agree fold query limit messages rows) ↔ Searchable query := by
  constructor
  · intro agree
    have noNul : '\x00' ∉ query.toList := by
      intro nul
      obtain ⟨found, searched, _⟩ := agree [] [] 0 ⟨List.nodup_nil, List.Perm.refl _⟩ (by decide)
      rw [search, if_pos (.inl nul)] at searched
      cases searched
    refine searchable_iff.mpr ⟨?_, noNul⟩
    by_contra marked
    -- One message, whose text the pattern of the query finds and does not contain it.
    let text := String.ofList (sample likeMarks 'x' query.toList)
    have room : (List.length [(⟨1, text, "", none, 0⟩ : MessageRow)] : Int) ≤ 1 := Int.le_refl 1
    have other : fold 'x' ≠ likeMarks.one := fun same =>
      absurd ((keeps 'x').2.1.mp same) (by decide)
    have chars : (lowered fold text).toList = sample likeMarks (fold 'x')
        (query.toList.map fold) := by
      rw [lowered, String.toList_ofList, String.toList_ofList, keeps.sample]
    obtain ⟨pattern, reads, matched⟩ :=
      sample_matches (m := likeMarks) (fold 'x') (query.toList.map fold)
    obtain ⟨found, searched, _, contained⟩ := agree _ _ 1 (both_single text) room
    obtain ⟨found', searched', ids⟩ := search_found keeps reads noNul room
    cases searched.symm.trans searched'
    rw [← chars] at matched
    obtain ⟨r, mem, _, holds⟩ :=
      (contained 1).mp ((ids 1).mpr ⟨_, List.mem_singleton_self _, rfl, matched⟩)
    cases List.mem_singleton.mp mem
    rw [Contains, chars, lowered, String.toList_ofList] at holds
    exact not_infix_sample other (fun literal => marked ((keeps.literal _).mp literal)) holds
  · intro h messages rows limit both room
    exact agree_of_searchable keeps h both room

/-- Both find a greeting. -/
theorem engines_agree_greeting :
    Agree Char.toLower "HELLO" 1 [⟨1, "Say hello!", "", none, 0⟩]
      [⟨1, "Say hello!", "", "", 0⟩] := by
  have searchable : Searchable "HELLO" := by
    have chars : "HELLO".toList = ['H', 'E', 'L', 'L', 'O'] := rfl
    rw [Searchable, chars]
    simp
  exact (engines_agree keeps_toLower).mpr searchable _ _ 1 (both_single "Say hello!") (by decide)

/-- **A mark in the query.** Of one message in both stores, `Search` finds `100%` in its text, and
`Scan` does not: the text does not contain it. -/
theorem percent_found :
    Both [⟨1, "100 tons", "", none, 0⟩] [⟨1, "100 tons", "", "", 0⟩] ∧
    (search Char.toLower "100%" 1 [⟨1, "100 tons", "", none, 0⟩]).map
      (List.map Message.id) = some [1] ∧
    (scan (lowered Char.toLower) "100%" 1 [⟨1, "100 tons", "", "", 0⟩]).1 = [] ∧
    ¬Contains Char.toLower "100%" "100 tons" := by
  refine ⟨both_single "100 tons", by decide +kernel, by decide +kernel, ?_⟩
  unfold Contains
  decide

end OtusApp.Storage
