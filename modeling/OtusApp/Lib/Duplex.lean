import Mathlib.Data.List.Basic

/-!
# A stream in both directions

A client and a server send each other messages over one stream. Each side receives them in the order
they were sent. The client may close its side; when the server returns, its result follows the
messages it has sent. The stream may break for the client at any time: it may then see the break
before what was still on its way, and what it sends is lost.
-/

namespace Duplex

variable {α β ε : Type}

/-- What is on its way up and down, whether the client has closed its side, the result behind the
messages of the server, and the break. A result without an error is the end of the stream. -/
structure Stream (α β ε : Type) where
  up : List α
  closed : Bool
  down : List β
  ended : Option (Option ε)
  broken : Option ε

/-- What the client receives. -/
inductive Got (β ε : Type)
  | message (b : β)
  | eof
  | error (e : ε)

namespace Stream

/-- A new stream. -/
def empty : Stream α β ε := ⟨[], false, [], none, none⟩

/-- Whether the stream has ended for the client, or broken. -/
def lost (s : Stream α β ε) : Bool := s.ended.isSome || s.broken.isSome

/-- The client sends a message. -/
def send (s : Stream α β ε) (a : α) : Stream α β ε :=
  if s.lost then s else { s with up := s.up ++ [a] }

/-- The client closes its side. -/
def close (s : Stream α β ε) : Stream α β ε := { s with closed := true }

/-- The server receives a message, or the end; nothing while there is neither. -/
def take (s : Stream α β ε) : Option (Option α × Stream α β ε) :=
  match s.up with
  | a :: rest => some (some a, { s with up := rest })
  | [] => if s.closed then some (none, s) else none

/-- The server sends a message. -/
def put (s : Stream α β ε) (b : β) : Stream α β ε := { s with down := s.down ++ [b] }

/-- The server returns. -/
def settle (s : Stream α β ε) (r : Option ε) : Option (Stream α β ε) :=
  if s.ended.isNone then some { s with ended := some r } else none

/-- The stream breaks for the client. -/
def fail (s : Stream α β ε) (e : ε) : Option (Stream α β ε) :=
  if s.broken.isNone then some { s with broken := some e } else none

/-- The client receives; `early` is whether a break is seen before the messages. -/
def recv (s : Stream α β ε) (early : Bool) : Option (Got β ε × Stream α β ε) :=
  match early, s.broken with
  | true, some e => some (.error e, s)
  | true, none => none
  | false, broken =>
    match s.down with
    | b :: rest => some (.message b, { s with down := rest })
    | [] =>
      match s.ended, broken with
      | some none, _ => some (.eof, s)
      | some (some e), _ => some (.error e, s)
      | none, some e => some (.error e, s)
      | none, none => none

/-- What the client has received: the next message; the end, behind all of them; or an error. -/
inductive Receives (s : Stream α β ε) : Got β ε → Stream α β ε → Prop
  | message (b : β) (rest : List β) (next : s.down = b :: rest) :
      Receives s (.message b) { s with down := rest }
  | eof (empty : s.down = []) (ended : s.ended = some none) : Receives s .eof s
  | error (e : ε) (lost : s.lost = true) : Receives s (.error e) s

theorem receives {s t : Stream α β ε} {early : Bool} {got : Got β ε}
    (h : s.recv early = some (got, t)) : s.Receives got t := by
  unfold recv at h
  split at h
  · next e broken =>
    cases h
    exact .error e (by simp [lost, broken])
  · cases h
  · split at h
    · next b rest next =>
      cases h
      exact .message b rest next
    · next empty =>
      split at h
      · next ended =>
        cases h
        exact .eof empty ended
      · next e ended =>
        cases h
        exact .error e (by simp [lost, ended])
      · next e _ broken =>
        cases h
        exact .error e (by simp [lost, broken])
      · cases h

theorem settled {s t : Stream α β ε} {r : Option ε} (h : s.settle r = some t) :
    s.ended = none ∧ t = { s with ended := some r } := by
  obtain ⟨lasts, same⟩ := Option.ite_none_right_eq_some.mp h
  cases same
  exact ⟨Option.isNone_iff_eq_none.mp lasts, rfl⟩

theorem failed {s t : Stream α β ε} {e : ε} (h : s.fail e = some t) :
    t = { s with broken := some e } := by
  obtain ⟨_, same⟩ := Option.ite_none_right_eq_some.mp h
  cases same
  rfl

/-- What the server takes is the next message, or the end behind all of them. -/
theorem taken {s t : Stream α β ε} {got : Option α} (h : s.take = some (got, t)) :
    (∃ a rest, s.up = a :: rest ∧ got = some a ∧ t = { s with up := rest }) ∨
    (s.up = [] ∧ s.closed = true ∧ got = none ∧ t = s) := by
  unfold take at h
  split at h
  · next a rest next =>
    cases h
    exact .inl ⟨a, rest, next, rfl, rfl⟩
  · next empty =>
    obtain ⟨closed, same⟩ := Option.ite_none_right_eq_some.mp h
    cases same
    exact .inr ⟨empty, closed, rfl, rfl⟩

end Stream

end Duplex
