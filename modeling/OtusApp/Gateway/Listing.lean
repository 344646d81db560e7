import OtusApp.Gateway.Grpc
import OtusApp.Lib.Duplex
import OtusApp.Lib.System

/-!
# A list over a stream

`grpcList` of the gateway and `ListMessages` of the service, one at each end of a stream, and the
store behind the service. The service sends the messages one after another; the gateway writes each
to its answer as it comes, as a line. The stream may break at either end at any time.

`listed` and `ended` are kept besides: what the store has answered, and how the gateway has seen the
stream end.
-/

namespace OtusApp.Gateway.Listing

open Go Messaging Grpcserver Transition Duplex

/-- What the two are configured with. -/
structure Config where
  json : Handlers.Json
  authEnabled : Bool

/-- Where `grpcList` is; `body` is what it has written. -/
inductive Client
  | opening
  | receiving (body : Bytes)
  | answered (r : Response)

/-- Where `ListMessages` is: before its interceptor, before its request is read, at the store, in
its loop, or at its end. -/
inductive Service
  | idle
  | accepting
  | called
  | listing (limit : Int)
  | sending (rest : List Message)
  | returned (err : Option Status)

/-- A list on its way. -/
structure Session where
  client : Client
  service : Service
  stream : Stream Int Proto Status
  listed : Option (List Message)
  ended : Option (Option Status)

/-- The header of the answer. -/
def ndjson : Header := Header.empty.set "Content-Type" "application/x-ndjson"

/-- A message as `enc.Encode` writes it. -/
def line (json : Handlers.Json) (m : Message) : Bytes := Handlers.encoded (json.message m)

/-- The messages that `ListMessages` sends. -/
def upTo (limit : Int) (msgs : List Message) : List Message :=
  if 0 < limit ∧ limit < msgs.length then msgs.take limit.toNat else msgs

/-- A step of the gateway, of the service, or of the network between them. -/
inductive Step
  | open_ (err : Option Status)
  | recv (early : Bool)
  | accept
  | take
  | takeError (status : Status)
  | list (msgs : Option (List Message))
  | send (err : Option Status)
  | deliver
  | break_ (status : Status)

/-- The gateway opens the stream: its request has no limit. -/
def open_ (cfg : Config) (s : Session) (err : Option Status) : Option Session :=
  match s.client, err with
  | .opening, some status => some { s with client := .answered (writeGRPCError cfg.json status) }
  | .opening, none =>
    some { s with
      client := .receiving []
      service := .accepting
      stream := (s.stream.send 0).close }
  | _, _ => none

/-- The end of `grpcList`, however the stream has ended. -/
def finish (s : Session) (body : Bytes) (ended : Option Status) : Session :=
  { s with client := .answered ⟨200, ndjson, body⟩, ended := some ended }

/-- The loop of `grpcList`. -/
def recv (cfg : Config) (s : Session) (early : Bool) : Option Session :=
  match s.client with
  | .receiving body =>
    (s.stream.recv early).map fun (got, stream) =>
      match got with
      | .eof => finish { s with stream := stream } body none
      | .error status => finish { s with stream := stream } body (some status)
      | .message msg =>
        { s with stream := stream, client := .receiving (body ++ line cfg.json (fromProto msg)) }
  | _ => none

/-- `authStream`. -/
def accept (cfg : Config) (valid : Bool) (md : Header) (s : Session) : Option Session :=
  match s.service with
  | .accepting =>
    match checkMethod cfg.authEnabled valid md .listMessages with
    | some status => some { s with service := .returned (some status) }
    | none => some { s with service := .called }
  | _ => none

/-- The request is read. -/
def take (s : Session) : Option Session :=
  match s.service, s.stream.take with
  | .called, some (some limit, stream) =>
    some { s with service := .listing limit, stream := stream }
  | _, _ => none

/-- The request cannot be read. -/
def takeError (s : Session) (status : Status) : Option Session :=
  match s.service with
  | .called => some { s with service := .returned (some status) }
  | _ => none

/-- `ListMessages` up to its loop; `msgs` is what the store answers, if it does. -/
def list (s : Session) (msgs : Option (List Message)) : Option Session :=
  match s.service, msgs with
  | .listing _, none =>
    some { s with service := .returned (some (.internal "не удалось получить сообщения")) }
  | .listing limit, some msgs =>
    some { s with service := .sending (upTo limit msgs), listed := some msgs }
  | _, _ => none

/-- The loop of `ListMessages`: a message is sent, or cannot be; behind the last one it returns. -/
def send (s : Session) (err : Option Status) : Option Session :=
  match s.service, err with
  | .sending [], none => some { s with service := .returned none }
  | .sending (m :: rest), none =>
    some { s with service := .sending rest, stream := s.stream.put (toProto m) }
  | .sending (_ :: _), some status => some { s with service := .returned (some status) }
  | _, _ => none

/-- The result of the service follows its messages. -/
def deliver (s : Session) : Option Session :=
  match s.service with
  | .returned err => (s.stream.settle err).map fun stream => { s with stream := stream }
  | _ => none

/-- The stream breaks for the gateway. -/
def break_ (s : Session) (status : Status) : Option Session :=
  (s.stream.fail status).map fun stream => { s with stream := stream }

/-- One step of a list with the metadata `md`. -/
def step (cfg : Config) (valid : Bool) (md : Header) (s : Session) : Step → Option Session
  | .open_ err => open_ cfg s err
  | .recv early => recv cfg s early
  | .accept => accept cfg valid md s
  | .take => take s
  | .takeError status => takeError s status
  | .list msgs => list s msgs
  | .send err => send s err
  | .deliver => deliver s
  | .break_ status => break_ s status

/-- A request for a list that has arrived at the gateway. -/
def requested : Session := ⟨.opening, .idle, .empty, none, none⟩

/-- A list as a transition system. -/
def listing (cfg : Config) (req : Request) (valid : Bool) : System Session Step :=
  System.ofStep (· = requested) (step cfg valid (withAuth req.header))

end OtusApp.Gateway.Listing
