import Mathlib.Data.List.Infix

/-!
# Patterns

The patterns of `LIKE`: one mark stands for any text, one for any character, and the escape makes
the character after it stand for itself. A text between two marks for any text is found wherever it
stands, if it has no marks of its own (`matches_literal`). If it has, there is a text the pattern
finds it in that does not contain it (`sample`).
-/

namespace Like

variable {α : Type}

/-- The characters with a meaning of their own. -/
structure Marks (α : Type) where
  any : α
  one : α
  escape : α
  any_ne_one : any ≠ one
  any_ne_escape : any ≠ escape
  one_ne_escape : one ≠ escape

/-- A text without marks. -/
def Literal (m : Marks α) (l : List α) : Prop := ∀ c ∈ l, c ≠ m.any ∧ c ≠ m.one ∧ c ≠ m.escape

/-- The pattern of a text that may stand anywhere. -/
def within (m : Marks α) (l : List α) : List α := m.any :: (l ++ [m.any])

/-- A change of characters that keeps the marks, and makes no other character one. -/
def Keeps (m : Marks α) (f : α → α) : Prop :=
  ∀ c, (f c = m.any ↔ c = m.any) ∧ (f c = m.one ↔ c = m.one) ∧ (f c = m.escape ↔ c = m.escape)

variable {m : Marks α} {f : α → α}

theorem Keeps.literal (h : Keeps m f) (l : List α) : Literal m (l.map f) ↔ Literal m l := by
  simp only [Literal, List.forall_mem_map, ne_eq, (h _).1, (h _).2.1, (h _).2.2]

theorem Keeps.within (h : Keeps m f) (l : List α) :
    (within m l).map f = Like.within m (l.map f) := by
  have any := (h m.any).1.mpr rfl
  rw [Like.within, Like.within, List.map_cons, List.map_append, List.map_singleton, any]

/-- A part of a pattern. -/
inductive Token (α : Type)
  | any
  | one
  | char (c : α)
deriving DecidableEq, Repr

variable [DecidableEq α]

/-- What a character stands for that is not escaped. -/
def token (m : Marks α) (c : α) : Token α :=
  if c = m.any then .any else if c = m.one then .one else .char c

/-- How a pattern is read; one that ends with the escape has no meaning. -/
def tokens (m : Marks α) : List α → Option (List (Token α))
  | [] => some []
  | c :: rest =>
    if c = m.escape then
      match rest with
      | [] => none
      | d :: rest => (tokens m rest).map (.char d :: ·)
    else (tokens m rest).map (token m c :: ·)

/-- Whether a pattern matches the whole of a text. -/
def Token.matches_ : List (Token α) → List α → Bool
  | [], text => text.isEmpty
  | .any :: rest, text => text.tails.any (matches_ rest)
  | .one :: rest, text =>
    match text with
    | [] => false
    | _ :: text => matches_ rest text
  | .char c :: rest, text =>
    match text with
    | [] => false
    | d :: text => decide (d = c) && matches_ rest text

open Token

/-! ## A text without marks -/

theorem tokens_of_ne {c : α} (ne : c ≠ m.escape) (rest : List α) :
    tokens m (c :: rest) = (tokens m rest).map (token m c :: ·) := by
  rw [tokens.eq_def]
  simp only [if_neg ne]

theorem tokens_escape (d : α) (rest : List α) :
    tokens m (m.escape :: d :: rest) = (tokens m rest).map (.char d :: ·) := by
  rw [tokens.eq_def]
  simp only [if_true]

theorem Literal.tokens {l : List α} (h : Literal m l) (rest : List α) :
    Like.tokens m (l ++ rest) = (Like.tokens m rest).map (l.map .char ++ ·) := by
  induction l with
  | nil => simp
  | cons c l ih =>
    obtain ⟨any, one, escape⟩ := h c List.mem_cons_self
    rw [List.cons_append, tokens_of_ne escape, token, if_neg any, if_neg one,
      ih fun d mem => h d (List.mem_cons_of_mem _ mem), Option.map_map]
    rfl

theorem tokens_any (rest : List α) :
    tokens m (m.any :: rest) = (tokens m rest).map (.any :: ·) := by
  rw [tokens_of_ne m.any_ne_escape, token, if_pos rfl]

theorem matches_any (rest : List (Token α)) (text : List α) :
    matches_ (.any :: rest) text = true ↔ ∃ u, u <:+ text ∧ matches_ rest u = true := by
  simp only [matches_, List.any_eq_true, List.mem_tails]

theorem matches_end (text : List α) : matches_ [.any] text = true :=
  (matches_any [] text).mpr ⟨[], List.nil_suffix, rfl⟩

theorem matches_chars (l : List α) (rest : List (Token α)) (text : List α) :
    matches_ (l.map .char ++ rest) text = true ↔ ∃ u, l ++ u = text ∧ matches_ rest u = true := by
  induction l generalizing text with
  | nil => simp
  | cons c l ih =>
    cases text with
    | nil => simp [matches_]
    | cons d text =>
      simp only [List.map_cons, List.cons_append, matches_, Bool.and_eq_true, decide_eq_true_eq, ih,
        List.cons.injEq]
      constructor
      · rintro ⟨rfl, u, rfl, rest⟩
        exact ⟨u, ⟨rfl, rfl⟩, rest⟩
      · rintro ⟨u, ⟨rfl, rfl⟩, rest⟩
        exact ⟨rfl, u, rfl, rest⟩

/-- **A text without marks** is found where it stands. -/
theorem matches_literal {l : List α} (h : Literal m l) :
    ∃ p, tokens m (within m l) = some p ∧ ∀ text, matches_ p text = true ↔ l <:+: text := by
  refine ⟨.any :: (l.map .char ++ [.any]), ?_, fun text => ?_⟩
  · have ending : tokens m [m.any] = some [.any] := tokens_any []
    rw [within, tokens_any, h.tokens, ending]
    rfl
  · rw [matches_any, List.infix_iff_prefix_suffix]
    apply exists_congr
    intro u
    rw [matches_chars, and_comm]
    refine and_congr_left fun _ => ⟨?_, ?_⟩
    · rintro ⟨rest, rfl, _⟩
      exact List.prefix_append l rest
    · rintro ⟨rest, rfl⟩
      exact ⟨rest, rfl, matches_end rest⟩

/-! ## A text with marks -/

/-- A text in which a pattern is found, with `x` for each character that is left open. -/
def sample (m : Marks α) (x : α) : List α → List α
  | [] => []
  | c :: rest =>
    if c = m.escape then
      match rest with
      | [] => [m.any]
      | d :: rest => d :: sample m x rest
    else if c = m.any then sample m x rest
    else if c = m.one then x :: sample m x rest
    else c :: sample m x rest

theorem sample_lone (x : α) : sample m x [m.escape] = [m.any] := by
  rw [sample.eq_def]
  simp only [if_true]

theorem sample_escape (x d : α) (rest : List α) :
    sample m x (m.escape :: d :: rest) = d :: sample m x rest := by
  rw [sample.eq_def]
  simp only [if_true]

theorem sample_any (x : α) (rest : List α) : sample m x (m.any :: rest) = sample m x rest := by
  rw [sample.eq_def]
  simp only [if_neg m.any_ne_escape, if_true]

theorem sample_one (x : α) (rest : List α) : sample m x (m.one :: rest) = x :: sample m x rest := by
  rw [sample.eq_def]
  simp only [if_neg m.one_ne_escape, if_neg m.any_ne_one.symm, if_true]

theorem sample_char {x c : α} (escape : c ≠ m.escape) (any : c ≠ m.any) (one : c ≠ m.one)
    (rest : List α) :
    sample m x (c :: rest) = c :: sample m x rest := by
  rw [sample.eq_def]
  simp only [if_neg escape, if_neg any, if_neg one]

theorem sample_tokens (x : α) (l : List α) :
    ∃ p, tokens m (l ++ [m.any]) = some p ∧ matches_ p (sample m x l) = true := by
  induction l using sample.induct m with
  | case1 => exact ⟨[.any], tokens_any [], rfl⟩
  | case2 =>
    refine ⟨[.char m.any], tokens_escape m.any [], ?_⟩
    rw [sample_lone]
    simp [matches_]
  | case3 d rest ih =>
    obtain ⟨p, reads, found⟩ := ih
    refine ⟨.char d :: p, ?_, ?_⟩
    · rw [List.cons_append, List.cons_append, tokens_escape, reads]
      rfl
    · rw [sample_escape]
      simpa [matches_] using found
  | case4 rest _ ih =>
    obtain ⟨p, reads, found⟩ := ih
    refine ⟨.any :: p, ?_, ?_⟩
    · rw [List.cons_append, tokens_any, reads]
      rfl
    · rw [sample_any, matches_any]
      exact ⟨_, List.suffix_refl _, found⟩
  | case5 rest escape any ih =>
    obtain ⟨p, reads, found⟩ := ih
    refine ⟨.one :: p, ?_, ?_⟩
    · rw [List.cons_append, tokens_of_ne escape, reads, token, if_neg any, if_pos rfl]
      rfl
    · rw [sample_one]
      exact found
  | case6 c rest escape any one ih =>
    obtain ⟨p, reads, found⟩ := ih
    refine ⟨.char c :: p, ?_, ?_⟩
    · rw [List.cons_append, tokens_of_ne escape, reads, token, if_neg any, if_neg one]
      rfl
    · rw [sample_char escape any one]
      simpa [matches_] using found

/-- The pattern is found in the sample. -/
theorem sample_matches (x : α) (l : List α) :
    ∃ p, tokens m (within m l) = some p ∧ matches_ p (sample m x l) = true := by
  obtain ⟨p, reads, found⟩ := sample_tokens (m := m) x l
  refine ⟨.any :: p, ?_, (matches_any _ _).mpr ⟨_, List.suffix_refl _, found⟩⟩
  rw [within, tokens_any, reads]
  rfl

theorem length_sample (x : α) (l : List α) : (sample m x l).length ≤ l.length := by
  induction l using sample.induct m with
  | case1 => exact Nat.le_refl 0
  | case2 => rw [sample_lone, List.length_singleton, List.length_singleton]
  | case3 d rest ih =>
    rw [sample_escape, List.length_cons, List.length_cons, List.length_cons]
    omega
  | case4 rest _ ih =>
    rw [sample_any, List.length_cons]
    omega
  | case5 rest _ _ ih =>
    rw [sample_one, List.length_cons, List.length_cons]
    omega
  | case6 c rest escape any one ih =>
    rw [sample_char escape any one, List.length_cons, List.length_cons]
    omega

theorem literal_of_sample {x : α} (other : x ≠ m.one) {l : List α} (same : sample m x l = l) :
    Literal m l := by
  have shorter : ∀ rest : List α, (sample m x rest).length ≤ rest.length := length_sample x
  induction l using sample.induct m with
  | case1 => exact fun c mem => absurd mem List.not_mem_nil
  | case2 =>
    rw [sample_lone] at same
    exact absurd (List.cons.inj same).1 m.any_ne_escape
  | case3 d rest ih =>
    rw [sample_escape] at same
    have lengths := congrArg List.length same
    rw [List.length_cons, List.length_cons, List.length_cons] at lengths
    have := shorter rest
    omega
  | case4 rest _ ih =>
    rw [sample_any] at same
    have lengths := congrArg List.length same
    rw [List.length_cons] at lengths
    have := shorter rest
    omega
  | case5 rest _ _ ih =>
    rw [sample_one] at same
    exact absurd (List.cons.inj same).1 other
  | case6 c rest escape any one ih =>
    rw [sample_char escape any one] at same
    intro d mem
    rcases List.mem_cons.mp mem with rfl | later
    · exact ⟨any, one, escape⟩
    · exact ih (List.cons.inj same).2 d later

/-- **A text with marks** is not contained in its sample. -/
theorem not_infix_sample {x : α} (other : x ≠ m.one) {l : List α} (marked : ¬Literal m l) :
    ¬l <:+: sample m x l := by
  intro contained
  have same := contained.eq_of_length (Nat.le_antisymm contained.length_le (length_sample x l))
  exact marked (literal_of_sample other same.symm)

/-- The sample in other characters. -/
theorem Keeps.sample (h : Keeps m f) (x : α) (l : List α) :
    (sample m x l).map f = Like.sample m (f x) (l.map f) := by
  have any := (h m.any).1.mpr rfl
  have one := (h m.one).2.1.mpr rfl
  have escape := (h m.escape).2.2.mpr rfl
  induction l using sample.induct m with
  | case1 => rfl
  | case2 => rw [sample_lone, List.map_singleton, List.map_singleton, any, escape, sample_lone]
  | case3 d rest ih =>
    rw [sample_escape, List.map_cons, List.map_cons, List.map_cons, escape, sample_escape, ih]
  | case4 rest _ ih => rw [sample_any, List.map_cons, any, sample_any, ih]
  | case5 rest _ _ ih => rw [sample_one, List.map_cons, List.map_cons, one, sample_one, ih]
  | case6 c rest notEscape notAny notOne ih =>
    rw [sample_char notEscape notAny notOne, List.map_cons, List.map_cons, sample_char, ih]
    · exact fun same => notEscape ((h c).2.2.mp same)
    · exact fun same => notAny ((h c).1.mp same)
    · exact fun same => notOne ((h c).2.1.mp same)

end Like
