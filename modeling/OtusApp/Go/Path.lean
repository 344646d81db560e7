import OtusApp.Go.Strings
import Mathlib.Data.List.TakeWhile

/-!
# Paths

`path.Base`, `path.Clean` and `path.Join`, as the Go library documents them.
-/

namespace OtusApp.Go

/-- `path.Base`: the last element of a path. -/
def pathBase (path : String) : String :=
  if path = "" then "."
  else
    let stripped := path.toList.reverse.dropWhile (· = '/')
    let last := (stripped.takeWhile (· ≠ '/')).reverse
    if last = [] then "/" else String.ofList last

/-- One more element of a path that is cleaned, in front of those so far, the last one first. -/
def cleanElement (rooted : Bool) (done : List (List Char)) (element : List Char) :
    List (List Char) :=
  if element = [] ∨ element = ['.'] then done
  else if element = ['.', '.'] then
    match done with
    | [] => if rooted then [] else [element]
    | last :: before => if last = ['.', '.'] then element :: done else before
  else element :: done

/-- `path.Clean`. -/
def pathClean (path : String) : String :=
  let rooted := path.toList.head? = some '/'
  let elements := (pieces '/' path.toList).foldl (cleanElement rooted) []
  let joined := (elements.reverse.intersperse ['/']).flatten
  if rooted then String.ofList ('/' :: joined)
  else if joined = [] then "."
  else String.ofList joined

/-- `path.Join` of two elements. -/
def pathJoin (a b : String) : String :=
  if a = "" ∧ b = "" then ""
  else if a = "" then pathClean b
  else if b = "" then pathClean a
  else pathClean (a ++ "/" ++ b)

example : pathBase "/a/b.txt/" = "b.txt" ∧ pathBase "///" = "/" ∧
    pathClean "/a/./b//../c" = "/a/c" ∧
    pathClean "../../a" = "../../a" ∧ pathClean "/.." = "/" ∧
    pathJoin "/otus/files" ".." = "/otus" := by
  decide

/-! ## Elements -/

/-- A path of one element. -/
def Component (s : String) : Prop := s ≠ "" ∧ '/' ∉ s.toList

theorem pieces_of_not_mem {sep : Char} {l : List Char} (h : sep ∉ l) : pieces sep l = [l] := by
  induction l with
  | nil => rfl
  | cons c rest ih =>
    obtain ⟨ne, none⟩ := List.ne_and_not_mem_of_not_mem_cons h
    rw [pieces, if_neg ne.symm, ih none]

theorem pieces_ne_nil (sep : Char) (l : List Char) : pieces sep l ≠ [] := by
  cases l with
  | nil => exact List.cons_ne_nil _ _
  | cons c rest =>
    unfold pieces
    split
    · exact List.cons_ne_nil _ _
    · split <;> exact List.cons_ne_nil _ _

theorem pieces_append (sep : Char) (l m : List Char) :
    pieces sep (l ++ sep :: m) = pieces sep l ++ pieces sep m := by
  induction l with
  | nil => simp only [List.nil_append, pieces, if_true, List.singleton_append]
  | cons c rest ih =>
    simp only [List.cons_append, pieces, ih]
    split
    · rfl
    · cases whole : pieces sep rest with
      | nil => exact absurd whole (pieces_ne_nil sep rest)
      | cons first others => rfl

/-- The base of a path is a single element, or the root. -/
theorem pathBase_cases (path : String) : pathBase path = "/" ∨ Component (pathBase path) := by
  unfold pathBase
  split
  · exact .inr ⟨by decide, by decide⟩
  · simp only
    generalize path.toList.reverse.dropWhile (· = '/') = stripped
    split
    · exact .inl rfl
    · next last =>
      refine .inr ⟨?_, ?_⟩
      · intro empty
        exact last (by simpa using congrArg String.toList empty)
      · rw [String.toList_ofList, List.mem_reverse]
        intro mem
        simpa using List.mem_takeWhile_imp mem

/-- The last element of a path, before any slashes at its end. -/
def LastElement (element path : String) : Prop :=
  ∃ lead slashes : List Char, path.toList = lead ++ element.toList ++ slashes ∧
  (∀ c ∈ slashes, c = '/') ∧
    ∀ c ∈ lead.getLast?, c = '/'

theorem pathBase_of_last {element path : String} (component : Component element)
    (last : LastElement element path) :
    pathBase path = element := by
  obtain ⟨ne, none⟩ := component
  obtain ⟨lead, slashes, chars, all, before⟩ := last
  have nonempty : element.toList ≠ [] := fun empty => ne (String.toList_eq_nil_iff.mp empty)
  have there : path ≠ "" := by
    rintro rfl
    have empty := (List.append_eq_nil_iff.mp chars.symm).1
    exact nonempty (List.append_eq_nil_iff.mp empty).2
  have other : ∀ c ∈ element.toList.reverse, c ≠ '/' := by
    intro c mem same
    exact none (same ▸ List.mem_reverse.mp mem)
  have stripped : path.toList.reverse.dropWhile (· = '/') = element.toList.reverse ++
      lead.reverse := by
    rw [chars, List.reverse_append, List.reverse_append,
      List.dropWhile_append_of_pos fun c mem => decide_eq_true (all c (List.mem_reverse.mp mem))]
    cases rev : element.toList.reverse with
    | nil => exact absurd (List.reverse_eq_nil_iff.mp rev) nonempty
    | cons c rest =>
      rw [List.cons_append, List.dropWhile_cons_of_neg]
      exact fun h => other c (rev ▸ List.mem_cons_self) (of_decide_eq_true h)
  have ends : lead.reverse.takeWhile (· ≠ '/') = [] := by
    cases rev : lead.reverse with
    | nil => rfl
    | cons c rest =>
      have same : c = '/' := before c (by rw [List.getLast?_eq_head?_reverse, rev]; rfl)
      rw [same]
      rfl
  have taken : (element.toList.reverse ++ lead.reverse).takeWhile
      (· ≠ '/') = element.toList.reverse := by
    rw [List.takeWhile_append_of_pos fun c mem => decide_eq_true (other c mem), ends,
      List.append_nil]
  simp only [pathBase, if_neg there, stripped, taken, List.reverse_reverse, if_neg nonempty,
    String.ofList_toList]

theorem pathBase_of_component {s : String} (h : Component s) : pathBase s = s :=
  pathBase_of_last h ⟨[], [], by simp, by simp, by simp⟩

/-- What the base of a path is: its last element, where there is one. -/
theorem last_of_pathBase {element path : String} (ne : path ≠ "") (component : Component element)
    (base : pathBase path = element) : LastElement element path := by
  have slash : element ≠ "/" := by
    rintro rfl
    exact component.2 (by decide)
  simp only [pathBase, if_neg ne] at base
  split at base
  · exact absurd base.symm slash
  · generalize strip : path.toList.reverse.dropWhile (· = '/') = stripped at base
    have name : (stripped.takeWhile (· ≠ '/')).reverse = element.toList := by
      rw [← base, String.toList_ofList]
    have front : path.toList.reverse = path.toList.reverse.takeWhile (· = '/') ++ stripped := by
      rw [← strip, List.takeWhile_append_dropWhile]
    have back : stripped.reverse = (stripped.dropWhile (· ≠ '/')).reverse ++ element.toList := by
      rw [← name, ← List.reverse_append, List.takeWhile_append_dropWhile]
    refine ⟨(stripped.dropWhile (· ≠ '/')).reverse,
      (path.toList.reverse.takeWhile (· = '/')).reverse, ?_, ?_, ?_⟩
    · rw [← back, ← List.reverse_append, ← front, List.reverse_reverse]
    · intro c mem
      simpa using List.mem_takeWhile_imp (List.mem_reverse.mp mem)
    · intro c mem
      rw [List.getLast?_reverse] at mem
      have first := List.head?_dropWhile_not (· ≠ '/') stripped
      rw [mem] at first
      simpa using first

/-- The base is the root where there is no element. -/
theorem pathBase_eq_root {path : String} :
    pathBase path = "/" ↔ path ≠ "" ∧ ∀ c ∈ path.toList, c = '/' := by
  have all : path.toList.reverse.dropWhile (· = '/') = [] ↔ ∀ c ∈ path.toList, c = '/' := by
    simp only [List.dropWhile_eq_nil_iff, List.mem_reverse, decide_eq_true_eq]
  constructor
  · intro base
    have ne : path ≠ "" := by
      rintro rfl
      exact absurd base (by decide)
    refine ⟨ne, all.mp ?_⟩
    by_contra there
    obtain ⟨c, rest, strip⟩ := List.exists_cons_of_ne_nil there
    have first := List.head?_dropWhile_not (· = '/') path.toList.reverse
    rw [strip] at first
    have other : c ≠ '/' := by simpa using first
    have last : (c :: rest).takeWhile (· ≠ '/') = c :: rest.takeWhile (· ≠ '/') :=
      List.takeWhile_cons_of_pos (by simpa using other)
    simp only [pathBase, if_neg ne, strip] at base
    rw [last, if_neg (by simp)] at base
    have chars := congrArg String.toList base
    rw [String.toList_ofList] at chars
    have inside : '/' ∈ (c :: rest.takeWhile (· ≠ '/')).reverse :=
      chars ▸ List.mem_singleton_self '/'
    rcases List.mem_cons.mp (List.mem_reverse.mp inside) with same | later
    · exact other same.symm
    · simpa using List.mem_takeWhile_imp later
  · rintro ⟨ne, slashes⟩
    simp only [pathBase, if_neg ne, all.mpr slashes, List.takeWhile_nil, List.reverse_nil, if_true]

/-- The base of a base. -/
theorem pathBase_idem (path : String) : pathBase (pathBase path) = pathBase path := by
  rcases pathBase_cases path with root | component
  · rw [root]
    decide
  · exact pathBase_of_component component

/-! ## Cleaning -/

/-- The elements of a path that is cleaned, joined again. -/
def joined (elements : List (List Char)) : List Char := (elements.reverse.intersperse ['/']).flatten

theorem intersperse_concat {sep last : List Char} {l : List (List Char)} (ne : l ≠ []) :
    ((l ++ [last]).intersperse sep).flatten = (l.intersperse sep).flatten ++ sep ++ last := by
  induction l with
  | nil => exact absurd rfl ne
  | cons a rest ih =>
    cases rest with
    | nil => simp
    | cons b rest =>
      have onward := ih (List.cons_ne_nil _ _)
      simp only [List.cons_append, List.intersperse_cons_cons, List.flatten_cons,
        List.append_assoc] at onward ⊢
      rw [onward]

theorem joined_cons {element : List Char} {elements : List (List Char)} (ne : elements ≠ []) :
    joined (element :: elements) = joined elements ++ '/' :: element := by
  rw [joined, List.reverse_cons, intersperse_concat (by simpa using ne), ← joined,
    List.append_assoc]
  rfl

/-- An element that stays as it is. -/
def Plain (element : List Char) : Prop := element ≠ [] ∧ element ≠ ['.'] ∧ element ≠ ['.', '.']

theorem cleanElement_plain {element : List Char} (h : Plain element) (rooted : Bool)
    (done : List (List Char)) :
    cleanElement rooted done element = element :: done := by
  obtain ⟨ne, dot, parent⟩ := h
  simp only [cleanElement, ne, dot, or_self, parent, if_false]

/-- No parent is left in a path from the root. -/
theorem cleanElement_rooted {done : List (List Char)} (h : ['.', '.'] ∉ done)
    (element : List Char) :
    ['.', '.'] ∉ cleanElement true done element := by
  unfold cleanElement
  split
  · exact h
  · split
    · cases done with
      | nil => exact h
      | cons last before =>
        obtain ⟨ne, rest⟩ := List.ne_and_not_mem_of_not_mem_cons h
        simp only [if_neg ne.symm]
        exact rest
    · next ne =>
      intro mem
      rcases List.mem_cons.mp mem with same | old
      · exact ne same.symm
      · exact h old

/-- The elements of a path from the root, the last one first. -/
def cleaned (path : String) : List (List Char) :=
  (pieces '/' path.toList).foldl (cleanElement true) []

theorem cleaned_rooted (path : String) : ['.', '.'] ∉ cleaned path := by
  have fold : ∀ (l : List (List Char)) done, ['.', '.'] ∉ done →
      ['.', '.'] ∉ l.foldl (cleanElement true) done := by
    intro l
    induction l with
    | nil => exact fun _ h => h
    | cons element rest ih => exact fun done h => ih _ (cleanElement_rooted h element)
  exact fold _ [] List.not_mem_nil

theorem pathClean_rooted {path : String} (absolute : path.toList.head? = some '/') :
    pathClean path = String.ofList ('/' :: joined (cleaned path)) := by
  simp only [pathClean, absolute, decide_true, if_true, joined, cleaned]

/-- A clean path from the root, and below it. -/
structure CleanDir (dir : String) : Prop where
  absolute : dir.toList.head? = some '/'
  clean : pathClean dir = dir
  below : dir ≠ "/"

namespace CleanDir

variable {dir : String}

theorem toList (h : CleanDir dir) : dir.toList = '/' :: joined (cleaned dir) := by
  have clean := h.clean
  rw [pathClean_rooted h.absolute] at clean
  have chars := congrArg String.toList clean
  rw [String.toList_ofList] at chars
  exact chars.symm

theorem cleaned_ne_nil (h : CleanDir dir) : cleaned dir ≠ [] := by
  intro none
  apply h.below
  apply String.toList_injective
  rw [h.toList, none]
  rfl

/-- A path that is joined to the directory. -/
theorem join (h : CleanDir dir) {path : String} (ne : path ≠ "") :
    (pathJoin dir path).toList =
      '/' :: joined ((pieces '/' path.toList).foldl (cleanElement true) (cleaned dir)) := by
  have here : dir ≠ "" := by
    rintro rfl
    exact absurd h.absolute (by decide)
  have chars : (dir ++ "/" ++ path).toList = dir.toList ++ '/' :: path.toList := by
    rw [String.toList_append, String.toList_append, List.append_assoc]
    rfl
  have absolute : (dir ++ "/" ++ path).toList.head? = some '/' := by
    rw [chars, List.head?_append, h.absolute]
    rfl
  have elements : cleaned (dir ++ "/" ++ path) =
      (pieces '/' path.toList).foldl (cleanElement true) (cleaned dir) := by
    rw [cleaned, chars, pieces_append, List.foldl_append, ← cleaned]
  simp only [pathJoin, here, ne, and_self, if_false]
  rw [pathClean_rooted absolute, String.toList_ofList, elements]

/-- A plain element below the directory. -/
theorem join_plain (h : CleanDir dir) {element : String} (component : Component element)
    (plain : Plain element.toList) :
    pathJoin dir element = dir ++ "/" ++ element := by
  apply String.toList_injective
  rw [h.join component.1, pieces_of_not_mem component.2, List.foldl_cons, List.foldl_nil,
    cleanElement_plain plain,
    joined_cons h.cleaned_ne_nil, String.toList_append, String.toList_append, h.toList,
    List.append_assoc]
  rfl

/-- The parent of the directory is not longer. -/
theorem join_parent (h : CleanDir dir) : (pathJoin dir "..").toList.length ≤ dir.toList.length := by
  have root := cleaned_rooted dir
  rw [h.join (by decide), h.toList]
  cases elements : cleaned dir with
  | nil => exact absurd elements h.cleaned_ne_nil
  | cons last before =>
    rw [elements] at root
    obtain ⟨ne, _⟩ := List.ne_and_not_mem_of_not_mem_cons root
    have up : (pieces '/' "..".toList).foldl (cleanElement true) (last :: before) = before := by
      simp [pieces, cleanElement, ne.symm]
    rw [up]
    cases before with
    | nil => simp [joined]
    | cons parent rest =>
      rw [joined_cons (List.cons_ne_nil _ _)]
      simp

end CleanDir

end OtusApp.Go
