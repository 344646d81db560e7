import OtusApp.Go.Http
import Mathlib.Data.List.TakeWhile

/-!
# Request targets

`URL.RequestURI` of a parsed request target in origin form, a path and a query, as `net/url` has it.
A path of such characters as a path may have is kept as it was written, any other one is written
anew; the query is not looked at. A text that is not in origin form has no such URI here.
-/

namespace OtusApp.Go

/-- `shouldEscape`, of a character of a path. -/
def shouldEscape (c : Char) : Bool :=
  !(c.isAlphanum || c ∈ ['-', '_', '.', '~', '$', '&', '+', ',', '/', ':', ';', '=', '@'])

/-- `validEncoded`, of a path. The first character is the apostrophe. -/
def validEncoded (path : List Char) : Bool :=
  path.all fun c =>
    c ∈ [Char.ofNat 39, '!', '$', '&', '(', ')', '*', '+', ',', ';', '=', ':', '@', '[', ']',
      '%'] || !shouldEscape c

/-- `unhex`, where it is a digit. -/
def unhex (c : Char) : Option Nat :=
  if c.isDigit then some (c.toNat - 48)
  else if 'a' ≤ c ∧ c ≤ 'f' then some (c.toNat - 87)
  else if 'A' ≤ c ∧ c ≤ 'F' then some (c.toNat - 55)
  else none

/-- `unescape`, of a path. -/
def unescape : List Char → Option Bytes
  | [] => some []
  | '%' :: a :: b :: rest => do
    let high ← unhex a
    let low ← unhex b
    return UInt8.ofNat (16 * high + low) :: (← unescape rest)
  | c :: rest => if c = '%' then none else (unescape rest).map (bytes (String.singleton c) ++ ·)

/-- A digit of `upperhex`. -/
def upperhex (n : Nat) : Char := if n < 10 then Char.ofNat (48 + n) else Char.ofNat (55 + n)

/-- One byte of `escape`. -/
def escapeByte (b : UInt8) : List Char :=
  if shouldEscape (Char.ofNat b.toNat) then ['%', upperhex (b.toNat / 16), upperhex (b.toNat % 16)]
  else [Char.ofNat b.toNat]

/-- `escape`, of a path. -/
def escape (path : Bytes) : List Char := path.flatMap escapeByte

/-- The path of a target. -/
def pathOf (target : List Char) : List Char := target.takeWhile (· ≠ '?')

/-- The query of a target, with its question mark. -/
def queryOf (target : List Char) : List Char := target.dropWhile (· ≠ '?')

/-- `URL.RequestURI` of a target that is parsed: `EscapedPath`, and the query. -/
def requestURI (target : List Char) : Option (List Char) :=
  (unescape (pathOf target)).map fun path =>
    (if validEncoded (pathOf target) then pathOf target else escape path) ++ queryOf target

/-- What `url.Parse` reads before the fragment. -/
def withoutFragment (url : List Char) : List Char := url.takeWhile (· ≠ '#')

example : requestURI "/a%20b?c d".toList = some "/a%20b?c d".toList ∧
    requestURI "/a|b".toList = some "/a%7Cb".toList ∧ requestURI "/%zz".toList = none := by
  decide +kernel

/-- A target that is sent on as it came. -/
def Written (target : List Char) : Prop :=
  target.head? = some '/' ∧ validEncoded (pathOf target) ∧
  (unescape (pathOf target)).isSome ∧ '#' ∉ target

instance (target : List Char) : Decidable (Written target) := inferInstanceAs (Decidable (_ ∧ _))

/-! ## Characters of a path -/

theorem validEncoded_append (p q : List Char) :
    validEncoded (p ++ q) = (validEncoded p && validEncoded q) :=
  List.all_append

theorem upperhex_valid : ∀ n < 16, validEncoded [upperhex n] = true := by decide

theorem escapeByte_valid (b : UInt8) : validEncoded (escapeByte b) = true := by
  unfold escapeByte
  split
  · have high := upperhex_valid (b.toNat / 16) (by have := b.toNat_lt; omega)
    have low := upperhex_valid (b.toNat % 16) (by omega)
    simp only [validEncoded, List.all_cons, List.all_nil, Bool.and_true] at high low ⊢
    rw [high, low]
    rfl
  · next plain => simp [validEncoded, plain]

/-- What is written anew has the characters of a path. -/
theorem escape_valid (path : Bytes) : validEncoded (escape path) = true := by
  induction path with
  | nil => rfl
  | cons b rest ih =>
    rw [escape, List.flatMap_cons, validEncoded_append, escapeByte_valid, Bool.true_and]
    exact ih

theorem not_mem_of_valid {path : List Char} (h : validEncoded path = true) :
    '?' ∉ path ∧ '#' ∉ path :=
  ⟨fun mem => absurd (List.all_eq_true.mp h _ mem) (by decide), fun mem =>
    absurd (List.all_eq_true.mp h _ mem) (by decide)⟩

/-! ## The request URI -/

theorem pathOf_append_queryOf (target : List Char) : pathOf target ++ queryOf target = target :=
  List.takeWhile_append_dropWhile

/-- The path of a request URI has the characters of a path, and its query is that of the target. -/
theorem requestURI_parts {target uri : List Char} (h : requestURI target = some uri) :
    validEncoded (pathOf uri) = true ∧ queryOf uri = queryOf target := by
  obtain ⟨decoded, _, rfl⟩ := Option.map_eq_some_iff.mp h
  have valid : validEncoded (if validEncoded (pathOf target) then pathOf target
      else escape decoded) = true := by
    split
    · next valid => exact valid
    · exact escape_valid decoded
  generalize (if validEncoded (pathOf target) then pathOf target else escape decoded) =
    path at valid ⊢
  have before : ∀ c ∈ path, decide (c ≠ '?') = true := by
    intro c mem
    have other : c ≠ '?' := fun same => (not_mem_of_valid valid).1 (same ▸ mem)
    exact decide_eq_true other
  have after : pathOf (queryOf target) = [] ∧ queryOf (queryOf target) = queryOf target := by
    cases rest : queryOf target with
    | nil => exact ⟨rfl, rfl⟩
    | cons c more =>
      have first := List.head?_dropWhile_not (fun c : Char => decide (c ≠ '?')) target
      rw [show target.dropWhile (fun c : Char => decide (c ≠ '?')) = c :: more from rest] at first
      have mark : c = '?' := by simpa using first
      subst mark
      exact ⟨rfl, rfl⟩
  constructor
  · have none : (queryOf target).takeWhile (· ≠ '?') = [] := after.1
    rw [pathOf, List.takeWhile_append_of_pos before, none, List.append_nil]
    exact valid
  · rw [queryOf, List.dropWhile_append_of_pos before]
    exact after.2

theorem requestURI_of_valid {target : List Char} (valid : validEncoded (pathOf target) = true)
    (decodes : (unescape (pathOf target)).isSome) : requestURI target = some target := by
  obtain ⟨decoded, eq⟩ := Option.isSome_iff_exists.mp decodes
  rw [requestURI, eq, Option.map_some, if_pos valid, pathOf_append_queryOf]

theorem unescape_slash (rest : List Char) :
    unescape ('/' :: rest) = (unescape rest).map (47 :: ·) := by
  have slash : bytes (String.singleton '/') = [47] := by decide +kernel
  rw [unescape, slash]
  · rfl
  · intro a b more same
    cases same

/-- The request URI of a target in origin form is in origin form. -/
theorem requestURI_rooted {target uri : List Char} (h : requestURI target = some uri)
    (rooted : target.head? = some '/') :
    uri.head? = some '/' := by
  obtain ⟨decoded, decodes, rfl⟩ := Option.map_eq_some_iff.mp h
  obtain ⟨rest, rfl⟩ : ∃ rest, target = '/' :: rest := List.head?_eq_some_iff.mp rooted
  have path : pathOf ('/' :: rest) = '/' :: pathOf rest := rfl
  rw [path] at decodes ⊢
  split
  · rfl
  · rw [unescape_slash] at decodes
    obtain ⟨more, _, rfl⟩ := Option.map_eq_some_iff.mp decodes
    rfl

theorem withoutFragment_rooted {url : List Char} (rooted : url.head? = some '/') :
    (withoutFragment url).head? = some '/' := by
  obtain ⟨rest, rfl⟩ := List.head?_eq_some_iff.mp rooted
  rfl

/-- **A target that is parsed, written and parsed again** with its fragment cut off is what it was
exactly where it was written with the characters of a path and has no fragment. -/
theorem requestURI_twice {target : List Char} (rooted : target.head? = some '/') :
    ((requestURI target).bind fun uri => requestURI (withoutFragment uri)) = some target ↔
    Written target := by
  constructor
  · intro same
    obtain ⟨uri, first, second⟩ := Option.bind_eq_some_iff.mp same
    obtain ⟨valid, query⟩ := requestURI_parts second
    refine ⟨rooted, valid, ?_, ?_⟩
    · obtain ⟨decoded, decodes, _⟩ := Option.map_eq_some_iff.mp first
      rw [decodes]
      rfl
    · rw [← pathOf_append_queryOf target, query, List.mem_append]
      rintro (inPath | inQuery)
      · exact (not_mem_of_valid valid).2 inPath
      · have cut : '#' ∈ withoutFragment uri := (List.dropWhile_sublist _).mem inQuery
        exact absurd (List.mem_takeWhile_imp cut) (by decide)
  · rintro ⟨_, valid, decodes, whole⟩
    have uncut : withoutFragment target = target := by
      refine List.takeWhile_eq_self_iff.mpr fun c mem => ?_
      have other : c ≠ '#' := fun same => whole (same ▸ mem)
      exact decide_eq_true other
    rw [requestURI_of_valid valid decodes, Option.bind_some, uncut,
      requestURI_of_valid valid decodes]

end OtusApp.Go
