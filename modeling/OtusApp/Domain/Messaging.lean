import OtusApp.Go.Strings
import OtusApp.Go.Sha256

/-!
# The message aggregate and the event of its creation

`internal/domain/messaging`: a message, the two errors its commands report, the checks on its text,
and the event every broker carries. `EventCodec` is the JSON form of that event as the storage and
the brokers use it: what is assumed of it is the round trip, carried as a field.
-/

namespace OtusApp.Messaging

/-- A moment, in microseconds: the resolution of `TIMESTAMPTZ`. -/
abbrev Time := Int

/-- `messaging.Message`. -/
structure Message where
  id : Nat
  text : String
  checksum : String
  checksumOk : Bool
  createdAt : Time
deriving DecidableEq, Repr

/-- What a command reports: `ErrEmptyText`, `ErrIdempotencyConflict`, or an error of the database,
the driver or the context, which the callers do not tell apart. -/
inductive Err
  | emptyText
  | idempotencyConflict
  | database
deriving DecidableEq, Repr

/-- The text of a domain error; the others have the driver's own. -/
def Err.message : Err → Option String
  | .emptyText => some "поле text обязательно"
  | .idempotencyConflict => some "ключ идемпотентности уже использован для другого текста"
  | .database => none

/-- A text that `strings.TrimSpace` empties. -/
def Blank (text : String) : Prop := Go.trimSpace text = ""

instance (text : String) : Decidable (Blank text) := inferInstanceAs (Decidable (_ = _))

/-- `ValidateText`. -/
def validateText (text : String) : Except Err Unit :=
  if Blank text then .error .emptyText else .ok ()

/-- `Checksum`: the text's SHA-256, in hexadecimal. -/
def checksum (text : String) : String := Go.hexEncode (Go.Sha256.sum256 (Go.bytes text))

/-- `MessageCreated`. -/
structure MessageCreated where
  id : Nat
  text : String
  checksum : String
  createdAt : Time
  producer : String
deriving DecidableEq, Repr

/-- `Message.CreatedEvent`. -/
def Message.createdEvent (m : Message) : MessageCreated :=
  ⟨m.id, m.text, m.checksum, m.createdAt, "otus-app"⟩

/-- The JSON form of an event. `json.Marshal` may refuse a value; what it writes reads back. -/
structure EventCodec where
  Payload : Type
  marshal : MessageCreated → Option Payload
  unmarshal : Payload → Option MessageCreated
  unmarshal_marshal : ∀ ev p, marshal ev = some p → unmarshal p = some ev

/-- Events kept as they are: the simplest codec. -/
def plainCodec : EventCodec := ⟨MessageCreated, some, some, fun _ _ h => h.symm⟩

end OtusApp.Messaging
