import OtusApp.Application.Messages
import OtusApp.Go.Int64
import OtusApp.Security.Jwt

/-!
# The gRPC front end for messages

The methods of the service behind their interceptors. The stream of a client is given as what it
sends: the texts, and then the end of the stream or its break. A stream to a client is given by how
many messages can be sent before it breaks, if it does.
-/

namespace OtusApp.Grpcserver

open Messaging Messages Go

/-- `status.Error`, or the error of a stream that broke. -/
inductive Status
  | unauthenticated (text : String)
  | invalidArgument (text : String)
  | alreadyExists (text : String)
  | internal (text : String)
  | resourceExhausted (text : String)
  | broken
deriving DecidableEq, Repr

/-- `Status.Message`; a stream that broke has the transport's own text. -/
def Status.message : Status → String
  | .unauthenticated text => text
  | .invalidArgument text => text
  | .alreadyExists text => text
  | .internal text => text
  | .resourceExhausted text => text
  | .broken => ""

/-- How the client's stream ends. -/
inductive Ending
  | eof
  | broken
deriving DecidableEq, Repr

/-- `BatchCreateSummary`. -/
structure Summary where
  created : Int
  ids : List Nat
deriving DecidableEq, Repr

/-- `checkAuth` of a protected method; the metadata has its names in lower case. -/
def checkAuth (enabled valid : Bool) (md : Header) : Option Status :=
  (Security.authorize enabled valid (md.get "authorization")).map .unauthenticated

/-- `service.CreateMessage`. -/
def createMessage (md : Header) (text : String) : Handler (Except Status Message) :=
  if Blank text then return .error (.invalidArgument "поле text обязательно")
  else do
    match ← create text (md.get "idempotency-key") with
    | .error .idempotencyConflict =>
      return .error (.alreadyExists (Err.idempotencyConflict.message.getD ""))
    | .error _ => return .error (.internal "не удалось сохранить сообщение")
    | .ok msg => do
      count
      return .ok msg

/-- `service.BatchCreate`, with the identifiers collected so far. -/
def batchCreate (ending : Ending) (ids : List Nat) : List String → Handler (Except Status Summary)
  | [] =>
    match ending with
    | .eof => return .ok ⟨wrap32 ids.length, ids⟩
    | .broken => return .error .broken
  | text :: rest =>
    if Blank text then return .error (.invalidArgument "поле text обязательно")
    else do
      match ← create text "" with
      | .error _ => return .error (.internal "не удалось сохранить сообщение")
      | .ok msg => do
        count
        batchCreate ending (ids ++ [msg.id]) rest

/-- The messages of a stream that are sent, and how the sending ends. -/
def sent {α : Type} (sends : Option Nat) (messages : List α) : List α × Option Status :=
  match sends with
  | none => (messages, none)
  | some n => if n < messages.length then (messages.take n, some .broken) else (messages, none)

/-- `service.ListMessages`: the messages sent, and the error it ends with. -/
def listMessages (limit : Int) (sends : Option Nat) : Handler (List Message × Option Status) := do
  match ← list with
  | .error _ => return ([], some (.internal "не удалось получить сообщения"))
  | .ok msgs =>
    return sent sends (if 0 < limit ∧ limit < msgs.length then msgs.take limit.toNat else msgs)

/-- `service.Chat`: the replies sent, and the error it ends with. -/
def chat (ending : Ending) : Option Nat → List String → List String × Option Status
  | _, [] =>
    match ending with
    | .eof => ([], none)
    | .broken => ([], some .broken)
  | some 0, _ :: _ => ([], some .broken)
  | sends, note :: rest =>
    let (replies, status) := chat ending (sends.map (· - 1)) rest
    (("эхо: " ++ note) :: replies, status)

/-! ## What is sent -/

/-- `timestamppb.Timestamp`. -/
structure Timestamp where
  seconds : Int
  nanos : Int
deriving DecidableEq, Repr

/-- `timestamppb.New`. -/
def timestamp (t : Time) : Timestamp := ⟨t / 1000000, t % 1000000 * 1000⟩

/-- `Timestamp.AsTime`, of a time of whole microseconds. -/
def Timestamp.asTime (ts : Timestamp) : Time := ts.seconds * 1000000 + ts.nanos / 1000

/-- `grpcapi.Message`. -/
structure Proto where
  id : Nat
  text : String
  checksum : String
  checksumOk : Bool
  createdAt : Timestamp
deriving DecidableEq, Repr

/-- `toProto`. -/
def toProto (m : Message) : Proto := ⟨m.id, m.text, m.checksum, m.checksumOk, timestamp m.createdAt⟩

/-- The bytes of a varint. -/
def varintSize (n : Nat) : Nat := if n < 128 then 1 else 1 + varintSize (n / 128)

/-- The bytes of a field that is a number; the tags here take one byte, and zero is not written. -/
def numberSize (n : Nat) : Nat := if n = 0 then 0 else 1 + varintSize n

/-- The bytes of a field that is a text. -/
def textSize (text : String) : Nat :=
  if text = "" then 0 else 1 + varintSize text.utf8ByteSize + text.utf8ByteSize

/-- The bytes of a `CreateMessageRequest`. -/
def requestSize (text : String) : Nat := textSize text

/-- The bytes of a `Timestamp`; its numbers are written as 64 bits. -/
def Timestamp.size (ts : Timestamp) : Nat :=
  numberSize (ts.seconds % 2 ^ 64).toNat + numberSize (ts.nanos % 2 ^ 64).toNat

/-- The bytes of a `Message`. -/
def Proto.size (m : Proto) : Nat :=
  numberSize m.id + textSize m.text + textSize m.checksum + numberSize m.checksumOk.toNat +
    (1 + varintSize m.createdAt.size + m.createdAt.size)

/-- The limit of `grpc.NewServer` and `grpc.NewClient` on a message, where no other is set. -/
def maxReceiveMessageSize : Nat := 4 * 1024 * 1024

/-- What becomes of a message over the limit: the server answers it, without any interceptor or
method seeing the message, and the client returns it. -/
def tooLarge (size : Nat) : Status :=
  .resourceExhausted ("grpc: received message larger than max (" ++ toString size ++ " vs. " ++
    toString maxReceiveMessageSize ++ ")")

/-- Each byte of a varint has seven bits of it. -/
theorem varintSize_le {n k : Nat} (h : n < 128 ^ (k + 1)) : varintSize n ≤ k + 1 := by
  induction k generalizing n with
  | zero =>
    rw [varintSize, if_pos (by simpa using h)]
  | succ k ih =>
    rw [varintSize]
    split
    · omega
    · have rest : n / 128 < 128 ^ (k + 1) := Nat.div_lt_of_lt_mul (by rwa [Nat.pow_succ'] at h)
      have := ih rest
      omega

theorem numberSize_le {n : Nat} (h : n < 2 ^ 64) : numberSize n ≤ 11 := by
  have := varintSize_le (n := n) (k := 9) (h.trans (by decide))
  unfold numberSize
  split <;> omega

theorem textSize_le {text : String} {n : Nat} (h : text.utf8ByteSize ≤ n) (small : n < 2 ^ 64) :
    textSize text ≤ 11 + n := by
  have := varintSize_le (n := text.utf8ByteSize) (k := 9) ((h.trans_lt small).trans (by decide))
  unfold textSize
  split <;> omega

theorem utf8ByteSize_replicate (n : Nat) :
    (String.ofList (List.replicate n 'a')).utf8ByteSize = n := by
  induction n with
  | zero => rfl
  | succ n ih =>
    have one : 'a'.utf8Size = 1 := rfl
    rw [List.replicate_succ, String.ofList_cons, String.utf8ByteSize_append, ih,
      String.utf8ByteSize_singleton, one, Nat.add_comm]

theorem replicate_ne_empty {n : Nat} (h : n ≠ 0) : String.ofList (List.replicate n 'a') ≠ "" := by
  intro empty
  have size := utf8ByteSize_replicate n
  rw [empty] at size
  exact h size.symm

/-- A text takes its bytes, and those of its length. -/
theorem textSize_replicate {n : Nat} (h : n ≠ 0) :
    textSize (String.ofList (List.replicate n 'a')) = 1 + varintSize n + n := by
  rw [textSize, if_neg (replicate_ne_empty h), utf8ByteSize_replicate]

/-! ## The interceptors -/

/-- The methods of `MessageService`. -/
inductive Method
  | createMessage
  | listMessages
  | batchCreate
  | chat
deriving DecidableEq, Repr

/-- `protectedMethods`. -/
def protectedMethods : Method → Bool
  | .createMessage => true
  | .batchCreate => true
  | .listMessages => false
  | .chat => false

/-- `checkAuth` of any method. -/
def checkMethod (enabled valid : Bool) (md : Header) (method : Method) : Option Status :=
  if protectedMethods method then checkAuth enabled valid md else none

/-- `authUnary` in front of `CreateMessage`. -/
def unaryCreate (authEnabled valid : Bool) (md : Header) (text : String) :
    Handler (Except Status Message) :=
  match checkAuth authEnabled valid md with
  | some status => return .error status
  | none => createMessage md text

/-- A call of `CreateMessage`, from the server that receives it on. -/
def receiveCreate (authEnabled valid : Bool) (md : Header) (text : String) :
    Handler (Except Status Message) :=
  if maxReceiveMessageSize < requestSize text then return .error (tooLarge (requestSize text))
  else unaryCreate authEnabled valid md text

/-- `authStream` in front of `BatchCreate`. -/
def streamBatch (authEnabled valid : Bool) (md : Header) (texts : List String) (ending : Ending) :
    Handler (Except Status Summary) :=
  match checkAuth authEnabled valid md with
  | some status => return .error status
  | none => batchCreate ending [] texts

/-- `authStream` in front of `ListMessages`. -/
def streamList (authEnabled valid : Bool) (md : Header) (limit : Int) (sends : Option Nat) :
    Handler (List Message × Option Status) :=
  match checkMethod authEnabled valid md .listMessages with
  | some status => return ([], some status)
  | none => listMessages limit sends

/-- `authStream` in front of `Chat`. -/
def streamChat (authEnabled valid : Bool) (md : Header) (notes : List String) (ending : Ending)
    (sends : Option Nat) : List String × Option Status :=
  match checkMethod authEnabled valid md .chat with
  | some status => ([], some status)
  | none => chat ending sends notes

end OtusApp.Grpcserver
