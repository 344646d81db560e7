import OtusApp.Grpcserver.Server
import OtusApp.Handlers.Messages

/-!
# The gateway in front of the gRPC service

`grpcCreate` of `cmd/gateway`: a request for a message becomes a call of `CreateMessage`, and its
outcome an HTTP answer.
-/

namespace OtusApp.Gateway

open Go Messaging Messages Grpcserver

/-- `metadata.AppendToOutgoingContext`, of a value that is not empty. -/
def appendValue (md : Header) (name value : String) : Header :=
  if value ≠ "" then md.add name [value] else md

/-- `withAuth`: the metadata of the call. -/
def withAuth (header : Header) : Header :=
  let md := appendValue Header.empty "authorization" (header.get "Authorization")
  appendValue md "idempotency-key" (header.get "Idempotency-Key")

/-- The status `writeGRPCError` answers with. -/
def httpStatus : Status → Nat
  | .unauthenticated _ => 401
  | .alreadyExists _ => 409
  | .invalidArgument _ => 400
  | .internal _ => 500
  | .resourceExhausted _ => 502
  | .broken => 502

/-- `writeGRPCError`. -/
def writeGRPCError (json : Handlers.Json) (status : Status) : Response :=
  Handlers.writeError json (httpStatus status) status.message

/-- `fromProto`. -/
def fromProto (m : Proto) : Message := ⟨m.id, m.text, m.checksum, m.checksumOk, m.createdAt.asTime⟩

/-- The outcome of a call as the client of `newGRPCClient` returns it: it sets no limit of its own
on a reply. -/
def received : Except Status Proto → Except Status Proto
  | .error status => .error status
  | .ok msg => if maxReceiveMessageSize < msg.size then .error (tooLarge msg.size) else .ok msg

/-- What becomes of the outcome of a call. -/
def writeOutcome (json : Handlers.Json) : Except Status Proto → Response
  | .error status => writeGRPCError json status
  | .ok msg => Handlers.writeJSON 201 (json.message (fromProto msg))

/-- `grpcCreate`; `createMessage` is the call on the service. -/
def grpcCreate (json : Handlers.Json) (req : Request)
    (createMessage : Header → String → Handler (Except Status Proto)) : Handler Response :=
  match json.text req.body with
  | none => return Handlers.writeError json 400 "некорректное тело запроса"
  | some text => do return writeOutcome json (received (← createMessage (withAuth req.header) text))

theorem asTime_timestamp (t : Time) : (timestamp t).asTime = t := by
  have parts : ∀ n : Int, n / 1000000 * 1000000 + n % 1000000 * 1000 / 1000 = n := by
    intro n
    omega
  exact parts t

/-- Nothing of a message is lost on its way. -/
theorem fromProto_toProto (m : Message) : fromProto (toProto m) = m := by
  simp only [fromProto, toProto, asTime_timestamp]

theorem get_appendValue {md : Header} {name : String} (fresh : md name = []) (value : String) :
    (appendValue md name value).get name = value := by
  by_cases empty : value = ""
  · simp [appendValue, Header.get, empty, fresh]
  · simp [appendValue, Header.get, Header.add, empty, fresh]

theorem appendValue_ne (md : Header) {name other : String} (ne : other ≠ name) (value : String) :
    appendValue md name value other = md other := by
  unfold appendValue
  split
  · simp [Header.add, ne]
  · rfl

theorem get_authorization_withAuth (header : Header) :
    (withAuth header).get "authorization" = header.get "Authorization" := by
  rw [withAuth, Header.get, appendValue_ne _ (by decide)]
  exact get_appendValue rfl _

theorem get_key_withAuth (header : Header) :
    (withAuth header).get "idempotency-key" = header.get "Idempotency-Key" := by
  rw [withAuth, get_appendValue (appendValue_ne _ (by decide) _)]

end OtusApp.Gateway
