import Mathlib.Data.List.DropRight

/-!
# The string functions the services call

`strings.TrimSpace`, `strings.CutPrefix`, `strings.Cut`, `strings.Split`, `hex.EncodeToString` and
the byte view of a string, as the Go library documents them. A Go string that reaches these
functions has passed a JSON or protobuf decoder, so it is valid UTF-8 and a Lean `String` holds the
same code points.
-/

namespace OtusApp.Go

/-- `unicode.IsSpace`: the Latin-1 spaces, then the White_Space property outside Latin-1. -/
def isSpace (c : Char) : Bool :=
  let n := c.toNat
  (0x09 ≤ n && n ≤ 0x0d) || n == 0x20 || n == 0x85 || n == 0xa0 || n == 0x1680 ||
    (0x2000 ≤ n && n ≤ 0x200a) || n == 0x2028 || n == 0x2029 || n == 0x202f || n == 0x205f ||
    n == 0x3000

/-- `strings.TrimSpace`. -/
def trimSpace (s : String) : String :=
  String.ofList ((s.toList.dropWhile isSpace).reverse.dropWhile isSpace).reverse

theorem dropWhile_eq_self {p : Char → Bool} {l : List Char} (h : ∀ c ∈ l, p c = false) :
    l.dropWhile p = l := by
  cases l with
  | nil => rfl
  | cons c l => rw [List.dropWhile_cons_of_neg (by simp [h c List.mem_cons_self])]

/-- Nothing is trimmed of a text without spaces. -/
theorem trimSpace_eq_self {s : String} (h : ∀ c ∈ s.toList, isSpace c = false) :
    trimSpace s = s := by
  have reversed : ∀ c ∈ s.toList.reverse, isSpace c = false := fun c mem =>
    h c (List.mem_reverse.mp mem)
  rw [trimSpace, dropWhile_eq_self h, dropWhile_eq_self reversed, List.reverse_reverse,
    String.ofList_toList]

/-- No space at either end. -/
def Trimmed (s : String) : Prop :=
  (∀ c, s.toList.head? = some c → isSpace c = false) ∧ ∀ c, s.toList.getLast? = some c →
  isSpace c = false

/-- `strings.TrimSpace` from the left, then from the right. -/
theorem toList_trimSpace (s : String) :
    (trimSpace s).toList = (s.toList.dropWhile isSpace).rdropWhile isSpace := String.toList_ofList

theorem trimSpace_sublist (s : String) : List.Sublist (trimSpace s).toList s.toList := by
  rw [toList_trimSpace]
  exact (List.rdropWhile_prefix _ _).sublist.trans (List.dropWhile_sublist _)

theorem trimSpace_trimmed (s : String) : Trimmed (trimSpace s) := by
  rw [Trimmed, toList_trimSpace]
  constructor
  · intro c first
    obtain ⟨rest, whole⟩ := List.rdropWhile_prefix isSpace (s.toList.dropWhile isSpace)
    obtain ⟨tail, eq⟩ := List.head?_eq_some_iff.mp first
    have lead : (s.toList.dropWhile isSpace).head? = some c := by
      rw [← whole, eq]
      rfl
    have holds := List.head?_dropWhile_not isSpace s.toList
    rw [lead] at holds
    exact holds
  · intro c last
    have lead : ((s.toList.dropWhile isSpace).reverse.dropWhile isSpace).head? = some c := by
      rw [← List.getLast?_reverse]
      exact last
    have holds := List.head?_dropWhile_not isSpace (s.toList.dropWhile isSpace).reverse
    rw [lead] at holds
    exact holds

/-- Nothing is trimmed of a text without spaces at its ends. -/
theorem Trimmed.trimSpace_eq {s : String} (h : Trimmed s) : trimSpace s = s := by
  have left : s.toList.dropWhile isSpace = s.toList := by
    cases chars : s.toList with
    | nil => rfl
    | cons c rest =>
      apply List.dropWhile_cons_of_neg
      rw [h.1 c (by rw [chars]; rfl)]
      exact Bool.false_ne_true
  have right : s.toList.rdropWhile isSpace = s.toList := by
    apply List.rdropWhile_eq_self_iff.mpr
    intro ne
    rw [h.2 _ (List.getLast?_eq_getLast_of_ne_nil ne)]
    exact Bool.false_ne_true
  rw [← String.toList_inj, toList_trimSpace, left, right]

/-- `strings.CutPrefix`: what follows `lead`, if `s` begins with it. -/
def cutPrefix (s lead : String) : Option String :=
  if lead.toList.isPrefixOf s.toList then some (String.ofList (s.toList.drop lead.length)) else none

/-- `strings.Cut` at a separator of one character: what is before its first occurrence, and what is
after it. -/
def cut (s : String) (sep : Char) : String × Option String :=
  let before := s.toList.takeWhile (· ≠ sep)
  (String.ofList before,
    if sep ∈ s.toList then some (String.ofList (s.toList.drop (before.length + 1))) else none)

theorem cut_append {k v : String} (h : '=' ∉ k.toList) : cut (k ++ "=" ++ v) '=' = (k, some v) := by
  have chars : (k ++ "=" ++ v).toList = k.toList ++ '=' :: v.toList := by simp
  have before : ∀ c ∈ k.toList, decide (c ≠ '=') = true := fun c mem =>
    decide_eq_true fun same => h (same ▸ mem)
  have first : (k.toList ++ '=' :: v.toList).takeWhile (fun c => decide (c ≠ '=')) = k.toList := by
    rw [List.takeWhile_append_of_pos before, List.takeWhile_cons_of_neg (by decide),
      List.append_nil]
  have after : (k.toList ++ '=' :: v.toList).drop (k.toList.length + 1) = v.toList := by
    rw [← List.drop_drop, List.drop_left]
    rfl
  have found : '=' ∈ k.toList ++ '=' :: v.toList := List.mem_append_right _ List.mem_cons_self
  simp only [cut, chars, first, after, if_pos found, String.ofList_toList]

/-- What is before the separator is without it. -/
theorem not_mem_cut (s : String) (sep : Char) : sep ∉ (cut s sep).1.toList := by
  intro mem
  have taken : sep ∈ s.toList.takeWhile (· ≠ sep) := by
    simpa only [cut, String.toList_ofList] using mem
  exact absurd (List.mem_takeWhile_imp taken) (by simp)

/-- The pieces between the separators. -/
def pieces (sep : Char) : List Char → List (List Char)
  | [] => [[]]
  | c :: rest =>
    if c = sep then [] :: pieces sep rest
    else
      match pieces sep rest with
      | [] => [[c]]
      | first :: others => (c :: first) :: others

/-- `strings.Split`, at a separator of one character. -/
def split (s : String) (sep : Char) : List String := (pieces sep s.toList).map String.ofList

/-- One digit of a base up to 36, in lower case. -/
def hexDigit (n : Nat) : Char :=
  if n < 10 then Char.ofNat (48 + n) else Char.ofNat (87 + n)

/-- No character takes more than four bytes. -/
theorem utf8ByteSize_ofList_le (chars : List Char) :
    (String.ofList chars).utf8ByteSize ≤ 4 * chars.length := by
  induction chars with
  | nil => exact Nat.le_refl _
  | cons c rest ih =>
    have one := c.utf8Size_le_four
    rw [String.ofList_cons, String.utf8ByteSize_append, String.utf8ByteSize_singleton,
      List.length_cons]
    omega

/-- `hex.EncodeToString`. -/
def hexEncode (bytes : List UInt8) : String :=
  String.ofList (bytes.flatMap fun b => [hexDigit (b.toNat / 16), hexDigit (b.toNat % 16)])

theorem hexEncode_ne_empty {bytes : List UInt8} (h : bytes ≠ []) : hexEncode bytes ≠ "" := by
  obtain ⟨b, rest, rfl⟩ := List.exists_cons_of_ne_nil h
  rw [hexEncode, Ne, ← String.toList_inj, String.toList_ofList]
  nofun

/-- The bytes of a string, `[]byte(s)`. -/
def bytes (s : String) : List UInt8 := s.toUTF8.toList

end OtusApp.Go
