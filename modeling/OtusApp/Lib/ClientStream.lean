import Mathlib.Data.List.Basic

/-!
# A stream from a client to a server

One side sends messages and then closes its side; the other receives them in the order they were
sent, and then the end. When the server has returned, or the stream breaks, the stream has ended for
the client: what it sends from then on is lost, and closing it has no effect.

`Carries` says of a stream what has come through of the messages its client has to send. It is kept
by every operation, and gives what the server knows: it has received a beginning of them, and at the
end all of them.
-/

namespace ClientStream

variable {α ρ ε : Type}

/-- The messages on their way, whether the client has closed its side, and how the stream has ended
for it. -/
structure Stream (α ρ ε : Type) where
  queue : List α
  closed : Bool
  ended : Option (Except ε ρ)

namespace Stream

/-- A new stream. -/
def empty : Stream α ρ ε := ⟨[], false, none⟩

/-- The client sends a message. -/
def send (s : Stream α ρ ε) (a : α) : Stream α ρ ε :=
  match s.ended with
  | none => { s with queue := s.queue ++ [a] }
  | some _ => s

/-- The client closes its side. -/
def close (s : Stream α ρ ε) : Stream α ρ ε :=
  match s.ended with
  | none => { s with closed := true }
  | some _ => s

/-- The server receives a message, or the end; nothing while there is neither. -/
def recv (s : Stream α ρ ε) : Option (Option α × Stream α ρ ε) :=
  match s.queue with
  | a :: rest => some (some a, { s with queue := rest })
  | [] => if s.closed then some (none, s) else none

/-- The stream ends for the client. -/
def settle (s : Stream α ρ ε) (r : Except ε ρ) : Option (Stream α ρ ε) :=
  match s.ended with
  | none => some { s with ended := some r }
  | some _ => none

/-- Of the messages to send, `received` have come through; `unsent` are left to send, while the
stream lasts. -/
def Carries (s : Stream α ρ ε) (all received unsent : List α) : Prop :=
  ∃ tail, received ++ s.queue ++ tail = all ∧ (s.closed = true → tail = []) ∧
  (s.ended = none → tail = unsent)

variable {s t : Stream α ρ ε} {all received unsent : List α} {a : α}

@[simp] theorem ended_send (s : Stream α ρ ε) (a : α) : (s.send a).ended = s.ended := by
  unfold send
  split <;> rfl

@[simp] theorem ended_close (s : Stream α ρ ε) : s.close.ended = s.ended := by
  unfold close
  split <;> rfl

theorem empty_carries (all : List α) : (empty : Stream α ρ ε).Carries all [] all :=
  ⟨all, rfl, Bool.noConfusion, fun _ => rfl⟩

/-- Where the stream has ended, nothing is left to send. -/
theorem Carries.abandon (h : s.Carries all received unsent) {r : Except ε ρ}
    (ended : s.ended = some r) (unsent' : List α) : s.Carries all received unsent' := by
  obtain ⟨tail, split, closed, _⟩ := h
  refine ⟨tail, split, closed, fun none => ?_⟩
  rw [ended] at none
  cases none

theorem Carries.send (h : s.Carries all received (a :: unsent)) :
    (s.send a).Carries all received unsent := by
  unfold Stream.send
  split
  · next lasts =>
    obtain ⟨tail, split, closed, rest⟩ := h
    obtain rfl := rest lasts
    refine ⟨unsent, ?_, fun isClosed => ?_, fun _ => rfl⟩
    · rw [← split]
      simp
    · exact absurd (closed isClosed) (List.cons_ne_nil _ _)
  · next ended => exact h.abandon ended unsent

theorem Carries.close (h : s.Carries all received []) : s.close.Carries all received [] := by
  unfold Stream.close
  split
  · next lasts =>
    obtain ⟨tail, split, _, rest⟩ := h
    exact ⟨tail, split, fun _ => rest lasts, fun _ => rest lasts⟩
  · exact h

theorem settled {r : Except ε ρ} (ends : s.settle r = some t) :
    s.ended = none ∧ t = { s with ended := some r } := by
  unfold settle at ends
  split at ends
  · next lasts =>
    cases ends
    exact ⟨lasts, rfl⟩
  · cases ends

theorem Carries.settle (h : s.Carries all received unsent) (r : Except ε ρ) :
    Carries { s with ended := some r } all received unsent := by
  obtain ⟨tail, split, closed, _⟩ := h
  exact ⟨tail, split, closed, fun none => absurd none (Option.some_ne_none r)⟩

/-- What the server receives next is the next message. -/
theorem Carries.recv (h : s.Carries all received unsent) (got : s.recv = some (some a, t)) :
    t.Carries all (received ++ [a]) unsent ∧ t.ended = s.ended := by
  obtain ⟨tail, split, closed, rest⟩ := h
  unfold Stream.recv at got
  split at got
  · next b more queue =>
    cases got
    refine ⟨⟨tail, ?_, closed, rest⟩, rfl⟩
    rw [← split, queue]
    simp
  · split at got <;> cases got

/-- At the end the server has received everything. -/
theorem Carries.eof (h : s.Carries all received unsent) (got : s.recv = some (none, t)) :
    received = all ∧ t = s := by
  obtain ⟨tail, split, closed, _⟩ := h
  unfold Stream.recv at got
  split at got
  · cases got
  · next queue =>
    obtain ⟨isClosed, same⟩ := Option.ite_none_right_eq_some.mp got
    cases same
    rw [queue, closed isClosed, List.append_nil, List.append_nil] at split
    exact ⟨split, rfl⟩

/-- What has come through is a beginning. -/
theorem Carries.isPrefix (h : s.Carries all received unsent) : received <+: all := by
  obtain ⟨tail, split, _, _⟩ := h
  rw [← split, List.append_assoc]
  exact List.prefix_append received _

end Stream

end ClientStream
