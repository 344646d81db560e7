import OtusApp.Gateway.Grpc
import OtusApp.Lib.Duplex
import OtusApp.Lib.System

/-!
# A chat over a stream

`grpcChat` of the gateway and `Chat` of the service, one at each end of a stream. The gateway sends
a note only when the reply to the one before has come. The stream may break at either end at any
time.

`heard` is kept besides: the notes the service has received.
-/

namespace OtusApp.Gateway.Chat

open Go Grpcserver Transition Duplex

/-- What the two are configured with. `replies` is the JSON of the replies. -/
structure Config where
  json : Handlers.Json
  notes : Bytes → Option (List String)
  replies : List String → Bytes
  authEnabled : Bool

/-- Where `grpcChat` is: before its stream, before a `Send` or the end, or in a `Recv`. -/
inductive Client
  | opening (notes : List String)
  | sending (rest replies : List String)
  | waiting (rest replies : List String)
  | answered (r : Response)

/-- Where `Chat` is: before its interceptor, in `Recv`, in `Send`, or at its end. -/
inductive Service
  | idle
  | accepting
  | receiving
  | echoing (note : String)
  | returned (err : Option Status)

/-- A chat on its way. -/
structure Session where
  client : Client
  service : Service
  stream : Stream String String Status
  heard : List String

/-- The reply to a note. -/
def echo (note : String) : String := "эхо: " ++ note

/-- `grpcChat` up to its stream. -/
def grpcChat (cfg : Config) (body : Bytes) : Client :=
  match cfg.notes body with
  | none => .answered (Handlers.writeError cfg.json 400 "некорректное тело запроса")
  | some notes =>
    if notes.length = 0 then .answered (Handlers.writeError cfg.json 400 "поле notes обязательно")
    else .opening notes

/-- `writeGRPCError` of `io.EOF`, which is no status: its code is unknown. -/
def writeEOF (cfg : Config) : Response := Handlers.writeError cfg.json 502 "EOF"

/-- A step of the gateway, of the service, or of the network between them. -/
inductive Step
  | open_ (err : Option Status)
  | send (ok : Bool)
  | recv (early : Bool)
  | close
  | accept
  | take
  | takeError (status : Status)
  | put (err : Option Status)
  | deliver
  | break_ (status : Status)

/-- The gateway opens the stream. -/
def open_ (cfg : Config) (s : Session) (err : Option Status) : Option Session :=
  match s.client, err with
  | .opening _, some status => some { s with client := .answered (writeGRPCError cfg.json status) }
  | .opening notes, none => some { s with client := .sending notes [], service := .accepting }
  | _, _ => none

/-- `stream.Send`: it fails only on a stream that has ended, and then with `io.EOF`. -/
def send (cfg : Config) (s : Session) (ok : Bool) : Option Session :=
  match s.client with
  | .sending (note :: rest) replies =>
    if ok then some { s with client := .waiting rest replies, stream := s.stream.send note }
    else if s.stream.lost then some { s with client := .answered (writeEOF cfg) }
    else none
  | _ => none

/-- `stream.Recv` of the gateway. -/
def recv (cfg : Config) (s : Session) (early : Bool) : Option Session :=
  match s.client with
  | .waiting rest replies =>
    (s.stream.recv early).map fun (got, stream) =>
      match got with
      | .eof => { s with stream := stream, client := .answered (writeEOF cfg) }
      | .error status =>
        { s with stream := stream, client := .answered (writeGRPCError cfg.json status) }
      | .message reply => { s with stream := stream, client := .sending rest (replies ++ [reply]) }
  | _ => none

/-- `stream.CloseSend`, and the answer. -/
def close (cfg : Config) (s : Session) : Option Session :=
  match s.client with
  | .sending [] replies =>
    some { s with
      client := .answered (Handlers.writeJSON 200 (some (cfg.replies replies)))
      stream := s.stream.close }
  | _ => none

/-- `authStream`. -/
def accept (cfg : Config) (valid : Bool) (md : Header) (s : Session) : Option Session :=
  match s.service with
  | .accepting =>
    match checkMethod cfg.authEnabled valid md .chat with
    | some status => some { s with service := .returned (some status) }
    | none => some { s with service := .receiving }
  | _ => none

/-- `stream.Recv` of the service. -/
def take (s : Session) : Option Session :=
  match s.service with
  | .receiving =>
    s.stream.take.map fun (note, stream) =>
      match note with
      | some note =>
        { s with stream := stream, service := .echoing note, heard := s.heard ++ [note] }
      | none => { s with stream := stream, service := .returned none }
  | _ => none

/-- A `Recv` that fails. -/
def takeError (s : Session) (status : Status) : Option Session :=
  match s.service with
  | .receiving => some { s with service := .returned (some status) }
  | _ => none

/-- `stream.Send` of the service. -/
def put (s : Session) (err : Option Status) : Option Session :=
  match s.service, err with
  | .echoing note, none => some { s with service := .receiving, stream := s.stream.put (echo note) }
  | .echoing _, some status => some { s with service := .returned (some status) }
  | _, _ => none

/-- The result of the service follows its replies. -/
def deliver (s : Session) : Option Session :=
  match s.service with
  | .returned err => (s.stream.settle err).map fun stream => { s with stream := stream }
  | _ => none

/-- The stream breaks for the gateway. -/
def break_ (s : Session) (status : Status) : Option Session :=
  (s.stream.fail status).map fun stream => { s with stream := stream }

/-- One step of a chat with the metadata `md`. -/
def step (cfg : Config) (valid : Bool) (md : Header) (s : Session) : Step → Option Session
  | .open_ err => open_ cfg s err
  | .send ok => send cfg s ok
  | .recv early => recv cfg s early
  | .close => close cfg s
  | .accept => accept cfg valid md s
  | .take => take s
  | .takeError status => takeError s status
  | .put err => put s err
  | .deliver => deliver s
  | .break_ status => break_ s status

/-- A request for a chat that has arrived at the gateway. -/
def requested (cfg : Config) (body : Bytes) : Session := ⟨grpcChat cfg body, .idle, .empty, []⟩

/-- A chat as a transition system. -/
def chat (cfg : Config) (req : Request) (valid : Bool) : System Session Step :=
  System.ofStep (· = requested cfg req.body) (step cfg valid (withAuth req.header))

end OtusApp.Gateway.Chat
