import OtusApp.Lib.Rows

/-!
# Messages and their acknowledgements

What a broker keeps of a queue: the messages it took in, each under the number of its place, and
which of them were acknowledged. An acknowledgement that was sent takes effect at once, later, or
never.

A step acknowledges only what it may (`Moves`). If a message may be acknowledged only when it is
dealt with, then every message that is acknowledged, or may be by what is under way, is dealt with
(`Honest`), so one that is not stays with the broker.
-/

namespace Acks

-- One instance for the brokers whose holders are numbers, so that their ledgers decide membership
-- alike.
scoped instance lawfulHolding : LawfulBEq (Nat × Nat) := inferInstance

variable {P H : Type}

/-- The messages, and who acknowledged which of them: with effect, or without yet. -/
structure Ledger (P H : Type) where
  log : List P
  acked : List Nat
  late : List (H × Nat)

namespace Ledger

def empty : Ledger P H := ⟨[], [], []⟩

def put (s : Ledger P H) (p : P) : Ledger P H := { s with log := s.log ++ [p] }

def ack (s : Ledger P H) (k : Nat) : Ledger P H := { s with acked := k :: s.acked }

def send (s : Ledger P H) (holder : H) (k : Nat) : Ledger P H :=
  { s with late := s.late ++ [(holder, k)] }

/-- What is looked at of the messages. -/
def map {P' : Type} (f : P → P') (s : Ledger P H) : Ledger P' H := ⟨s.log.map f, s.acked, s.late⟩

/-- Still with the broker. -/
def Held (s : Ledger P H) (k : Nat) : Prop := k < s.log.length ∧ k ∉ s.acked

instance (s : Ledger P H) (k : Nat) : Decidable (s.Held k) := inferInstanceAs (Decidable (_ ∧ _))

end Ledger

/-- What a step may do to the ledger, which may acknowledge the messages of `may`. -/
inductive Moves (may : Nat → Prop) (s : Ledger P H) : Ledger P H → Prop
  | stay : Moves may s s
  | put (p : P) : Moves may s (s.put p)
  | ack {k : Nat} (allowed : may k) : Moves may s (s.ack k)
  | send (holder : H) {k : Nat} (allowed : may k) : Moves may s (s.send holder k)
  | land {holder : H} {k : Nat} (sent : (holder, k) ∈ s.late) : Moves may s (s.ack k)

variable {may : Nat → Prop} {s t : Ledger P H} {done : P → Prop}

/-- A message stays where it is. -/
theorem Moves.stays (h : Moves may s t) {k : Nat} {p : P} (found : s.log[k]? = some p) :
    t.log[k]? = some p := by
  cases h with
  | put q =>
    have bound := (List.getElem?_eq_some_iff.mp found).1
    rw [Ledger.put, List.getElem?_append_left bound]
    exact found
  | stay | ack | send | land => exact found

theorem Moves.map {P' : Type} (f : P → P') (h : Moves may s t) : Moves may (s.map f) (t.map f) := by
  cases h with
  | stay => exact .stay
  | put p =>
    have is : (s.put p).map f = (s.map f).put (f p) := by
      rw [Ledger.map, Ledger.put, Ledger.put, List.map_append]
      rfl
    rw [is]
    exact .put (f p)
  | ack allowed => exact .ack allowed
  | send holder allowed => exact .send holder allowed
  | land sent => exact .land sent

/-- The message of that number is dealt with. -/
def Dealt (done : P → Prop) (s : Ledger P H) (k : Nat) : Prop := ∃ p, s.log[k]? = some p ∧ done p

theorem Dealt.moves {k : Nat} (h : Dealt done s k) (move : Moves may s t) : Dealt done t k := by
  obtain ⟨p, found, dealt⟩ := h
  exact ⟨p, move.stays found, dealt⟩

theorem Dealt.mono {done' : P → Prop} {k : Nat} (h : Dealt done s k)
    (weaker : ∀ p, done p → done' p) :
    Dealt done' s k := by
  obtain ⟨p, found, dealt⟩ := h
  exact ⟨p, found, weaker p dealt⟩

/-- Only messages that are dealt with are acknowledged. -/
structure Honest (done : P → Prop) (s : Ledger P H) : Prop where
  acked : ∀ k ∈ s.acked, Dealt done s k
  late : ∀ holder k, (holder, k) ∈ s.late → Dealt done s k

theorem honest_empty : Honest done (Ledger.empty : Ledger P H) := by
  constructor
  · intro k mem
    cases mem
  · intro holder k mem
    cases mem

theorem Honest.mono {done' : P → Prop} (h : Honest done s) (weaker : ∀ p, done p → done' p) :
    Honest done' s :=
  ⟨fun k mem => (h.acked k mem).mono weaker, fun holder k mem => (h.late holder k mem).mono weaker⟩

/-- **The step.** What may be acknowledged only when it is dealt with is not lost. -/
theorem Honest.moves (h : Honest done s) (move : Moves may s t)
    (due : ∀ k, may k → Dealt done s k) : Honest done t := by
  have acked : ∀ k ∈ s.acked, Dealt done t k := fun k mem => (h.acked k mem).moves move
  have late : ∀ holder k, (holder, k) ∈ s.late → Dealt done t k := fun holder k mem =>
    (h.late holder k mem).moves move
  cases move with
  | stay | put => exact ⟨acked, late⟩
  | ack allowed =>
    refine ⟨fun k mem => ?_, late⟩
    rcases List.mem_cons.mp mem with rfl | old
    · exact due k allowed
    · exact acked k old
  | send holder allowed =>
    refine ⟨acked, fun holder' k mem => ?_⟩
    rcases List.mem_append.mp mem with old | new
    · exact late holder' k old
    · cases List.mem_singleton.mp new
      exact due _ allowed
  | land sent =>
    refine ⟨fun k mem => ?_, late⟩
    rcases List.mem_cons.mp mem with rfl | old
    · exact late _ k sent
    · exact acked k old

/-- A message is held by the broker, or dealt with. -/
theorem Honest.held (h : Honest done s) {k : Nat} {p : P} (found : s.log[k]? = some p) :
    s.Held k ∨ done p := by
  by_cases mem : k ∈ s.acked
  · obtain ⟨q, same, dealt⟩ := h.acked k mem
    cases found.symm.trans same
    exact .inr dealt
  · exact .inl ⟨(List.getElem?_eq_some_iff.mp found).1, mem⟩

end Acks
