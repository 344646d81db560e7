import OtusApp.Lib.Protocol

/-!
# What a mutex guards

Programs in modes, some of which are inside a mutex. What the mutex guards holds while none is
inside; the one inside may break it, and says in its mode what holds instead (`Monitor`). A step of
the one inside, or of one that comes in, has only to care for its own mode (`Monitor.turn`).
-/

namespace Program

variable {M S : Type} {inside : M → Prop} {holder : S → Option Nat} {I : S → Prop}
    {In : S → M → Prop} {s t : S} {modes : List M}

/-- At most one program is inside, and what it says of its mode holds; if none is, what the mutex
guards does. -/
structure Monitor (inside : M → Prop) (holder : S → Option Nat) (I : S → Prop) (In : S → M → Prop)
    (s : S) (modes : List M) : Prop where
  alone : ∀ (i : Nat) mode, modes[i]? = some mode → inside mode → holder s = some i
  holds : ∀ mode ∈ modes, inside mode → In s mode
  free : (∀ mode ∈ modes, ¬inside mode) → I s

namespace Monitor

theorem empty (h : I s) : Monitor inside holder I In s [] := by
  constructor <;> simp [h]

/-- None is inside while the mutex is free. -/
theorem outside (m : Monitor inside holder I In s modes) (none : holder s = none) :
    ∀ mode ∈ modes, ¬inside mode := by
  intro mode mem isIn
  obtain ⟨i, entry⟩ := List.mem_iff_getElem?.mp mem
  simp [m.alone i mode entry isIn] at none

/-- What the mutex guards holds while it is free. -/
theorem enter (m : Monitor inside holder I In s modes) (none : holder s = none) : I s :=
  m.free (m.outside none)

/-- What the one inside says holds. -/
theorem here (m : Monitor inside holder I In s modes) {i : Nat} {mode : M}
    (entry : modes[i]? = some mode) (isIn : inside mode) :
    In s mode :=
  m.holds mode (List.mem_of_getElem? entry) isIn

/-- The step of the program inside, or of one that comes in. -/
theorem turn (m : Monitor inside holder I In s modes) {i : Nat} {mode next : M}
    (entry : modes[i]? = some mode) (mine : inside mode ∨ holder s = none)
    (stays : inside next → holder t = some i ∧ In t next) (leaves : ¬inside next → I t) :
    Monitor inside holder I In t (modes.set i next) := by
  -- whoever else there is, is outside
  have others : ∀ (j : Nat) m', j ≠ i → modes[j]? = some m' → ¬inside m' := by
    intro j m' other there isIn
    have holds := m.alone j m' there isIn
    rcases mine with here | none
    · rw [m.alone i mode entry here] at holds
      exact other (Option.some.inj holds).symm
    · simp [none] at holds
  have stands : ∀ (j : Nat) m', (modes.set i next)[j]? = some m' → inside m' → j = i ∧
      m' = next := by
    intro j m' there isIn
    by_cases mine : j = i
    · subst mine
      exact ⟨rfl, Rows.getElem?_set_some there⟩
    · rw [List.getElem?_set_ne (Ne.symm mine)] at there
      exact absurd isIn (others j m' mine there)
  constructor
  · intro j m' there isIn
    obtain ⟨rfl, rfl⟩ := stands j m' there isIn
    exact (stays isIn).1
  · intro m' mem isIn
    obtain ⟨j, there⟩ := List.mem_iff_getElem?.mp mem
    obtain ⟨_, rfl⟩ := stands j m' there isIn
    exact (stays isIn).2
  · intro none
    exact leaves (none next (List.mem_set (List.getElem?_eq_some_iff.mp entry).1 next))

/-- A program that is outside. -/
theorem arrive (m : Monitor inside holder I In s modes) {first : M} (out : ¬inside first) :
    Monitor inside holder I In s (modes ++ [first]) := by
  constructor
  · intro i mode entry isIn
    rcases Rows.getElem?_concat entry with old | ⟨_, rfl⟩
    · exact m.alone i mode old isIn
    · exact absurd isIn out
  · intro mode mem isIn
    rcases List.mem_append.mp mem with old | new
    · exact m.holds mode old isIn
    · rw [List.mem_singleton.mp new] at isIn
      exact absurd isIn out
  · exact fun none => m.free fun mode mem => none mode (List.mem_append_left _ mem)

/-- A step that concerns nothing of this. -/
theorem move (m : Monitor inside holder I In s modes) (same : holder t = holder s)
    (keeps : I s → I t) (holds : ∀ mode, In s mode → In t mode) :
    Monitor inside holder I In t modes := by
  constructor
  · intro i mode entry isIn
    rw [same]
    exact m.alone i mode entry isIn
  · exact fun mode mem isIn => holds mode (m.holds mode mem isIn)
  · exact fun none => keeps (m.free none)

end Monitor

end Program
