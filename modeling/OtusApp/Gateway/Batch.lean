import OtusApp.Gateway.Grpc
import OtusApp.Lib.ClientStream
import OtusApp.Lib.System

/-!
# A batch over a stream

`grpcBatch` of the gateway and `BatchCreate` of the service, one at each end of a stream, and the
store behind the service. Both go on by themselves: a text is received some time after it was sent,
and what the service returns reaches the gateway some time later, or not at all. The stream may
break at either end at any time: a text over the size limit, the deadline of the request and a lost
connection are such breaks. A `Create` that fails stores nothing.

`received`, `committed` and `failed` are kept besides: the texts the service has received, those it
has stored, each with its identifier, and those whose `Create` has failed, in this order. The
counter of created messages is left out.
-/

namespace OtusApp.Gateway

open Go Messaging Grpcserver Transition

/-- What the two are configured with. `summary` is the JSON of `created` and `ids`. -/
structure BatchConfig where
  json : Handlers.Json
  texts : Bytes → Option (List String)
  summary : Summary → Bytes
  authEnabled : Bool

/-- Where `grpcBatch` is. -/
inductive BatchClient
  | opening (texts : List String)
  | sending (rest : List String)
  | waiting
  | answered (r : Response)

/-- Where `BatchCreate` is: before its interceptor, in `Recv`, in `Create`, or at its end. -/
inductive BatchService
  | idle
  | accepting
  | receiving (ids : List Nat)
  | creating (ids : List Nat) (text : String)
  | returned (result : Except Status Summary)

/-- A batch on its way. -/
structure Session where
  client : BatchClient
  service : BatchService
  stream : ClientStream.Stream String Summary Status
  received : List String
  committed : List (Nat × String)
  failed : List String

/-- `grpcBatch` up to its stream. -/
def grpcBatch (cfg : BatchConfig) (body : Bytes) : BatchClient :=
  match cfg.texts body with
  | none => .answered (Handlers.writeError cfg.json 400 "некорректное тело запроса")
  | some texts =>
    if texts.length = 0 then .answered (Handlers.writeError cfg.json 400 "поле texts обязательно")
    else .opening texts

/-- The end of `grpcBatch`. -/
def writeSummary (cfg : BatchConfig) : Except Status Summary → Response
  | .error status => writeGRPCError cfg.json status
  | .ok summary => Handlers.writeJSON 201 (some (cfg.summary summary))

/-- A step of the gateway, of the service, or of the network between them. -/
inductive BatchMove
  | open_ (err : Option Status)
  | send (ok : Bool)
  | closeAndRecv
  | answer
  | accept
  | recv
  | recvError (status : Status)
  | create (id : Option Nat)
  | deliver
  | break_ (status : Status)

/-- The gateway opens the stream. -/
def openStream (cfg : BatchConfig) (s : Session) (err : Option Status) : Option Session :=
  match s.client, err with
  | .opening _, some status => some { s with client := .answered (writeGRPCError cfg.json status) }
  | .opening texts, none => some { s with client := .sending texts, service := .accepting }
  | _, _ => none

/-- The loop of `grpcBatch`: a `Send` fails only on a stream that has ended, and ends the loop. -/
def send (s : Session) (ok : Bool) : Option Session :=
  match s.client with
  | .sending (text :: rest) =>
    if ok then some { s with client := .sending rest, stream := s.stream.send text }
    else if s.stream.ended.isSome then some { s with client := .sending [] }
    else none
  | _ => none

/-- `stream.CloseAndRecv`, up to its answer. -/
def closeAndRecv (s : Session) : Option Session :=
  match s.client with
  | .sending [] => some { s with client := .waiting, stream := s.stream.close }
  | _ => none

/-- The answer of `CloseAndRecv`, and of the gateway. -/
def answer (cfg : BatchConfig) (s : Session) : Option Session :=
  match s.client, s.stream.ended with
  | .waiting, some r => some { s with client := .answered (writeSummary cfg r) }
  | _, _ => none

/-- `authStream`. -/
def accept (cfg : BatchConfig) (valid : Bool) (md : Header) (s : Session) : Option Session :=
  match s.service with
  | .accepting =>
    match checkAuth cfg.authEnabled valid md with
    | some status => some { s with service := .returned (.error status) }
    | none => some { s with service := .receiving [] }
  | _ => none

/-- `BatchCreate` from a `Recv` on: a text is looked at, and at the end the summary is sent. -/
def recv (s : Session) : Option Session :=
  match s.service with
  | .receiving ids =>
    match s.stream.recv with
    | none => none
    | some (none, stream) =>
      some { s with stream := stream, service := .returned (.ok ⟨wrap32 ids.length, ids⟩) }
    | some (some text, stream) =>
      let service :=
        if Blank text then .returned (.error (.invalidArgument "поле text обязательно"))
        else .creating ids text
      some { s with stream := stream, service := service, received := s.received ++ [text] }
  | _ => none

/-- A `Recv` that fails. -/
def recvError (s : Session) (status : Status) : Option Session :=
  match s.service with
  | .receiving _ => some { s with service := .returned (.error status) }
  | _ => none

/-- `BatchCreate` from a `Create` on; `id` is that of the message, if it is stored. -/
def create (s : Session) (id : Option Nat) : Option Session :=
  match s.service with
  | .creating ids text =>
    match validateText text, id with
    | .ok (), some id =>
      some { s with service := .receiving (ids ++ [id]), committed := s.committed ++ [(id, text)] }
    | _, _ =>
      let status := .internal "не удалось сохранить сообщение"
      some { s with service := .returned (.error status), failed := s.failed ++ [text] }
  | _ => none

/-- What the service has returned reaches the gateway. -/
def deliver (s : Session) : Option Session :=
  match s.service with
  | .returned r => (s.stream.settle r).map fun stream => { s with stream := stream }
  | _ => none

/-- The stream breaks for the gateway. -/
def break_ (s : Session) (status : Status) : Option Session :=
  (s.stream.settle (.error status)).map fun stream => { s with stream := stream }

/-- One step of a batch with the metadata `md`. -/
def batchStep (cfg : BatchConfig) (valid : Bool) (md : Header) (s : Session) :
    BatchMove → Option Session
  | .open_ err => openStream cfg s err
  | .send ok => send s ok
  | .closeAndRecv => closeAndRecv s
  | .answer => answer cfg s
  | .accept => accept cfg valid md s
  | .recv => recv s
  | .recvError status => recvError s status
  | .create id => create s id
  | .deliver => deliver s
  | .break_ status => break_ s status

/-- A request for a batch that has arrived at the gateway. -/
def requested (cfg : BatchConfig) (body : Bytes) : Session :=
  ⟨grpcBatch cfg body, .idle, .empty, [], [], []⟩

/-- A batch as a transition system. -/
def batch (cfg : BatchConfig) (req : Request) (valid : Bool) : System Session BatchMove :=
  System.ofStep (· = requested cfg req.body) (batchStep cfg valid (withAuth req.header))

end OtusApp.Gateway
