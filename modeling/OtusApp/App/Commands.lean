import OtusApp.App.Machine
import OtusApp.Gateway.Grpc

/-!
# The command to create a message

One command through either front end: as `POST /messages`, or as `CreateMessage` with the answer the
gateway makes of its outcome. The limiter lets every request pass.
-/

namespace OtusApp.Commands

open Messaging Messages Go Storage Program Transition

variable {codec : EventCodec}

/-- A request to create a message, and whether `Validate` accepts its token. -/
structure Command where
  authorization : String
  text : String
  key : String
  valid : Bool
deriving DecidableEq, Repr

/-- The way a command is issued. -/
inductive Front
  | http
  | grpc
deriving DecidableEq, Repr

/-- How a client writes the body with a text; the app reads the text from it. -/
structure Wire (json : Handlers.Json) where
  body : String → Bytes
  decodes : ∀ text, json.text (body text) = some text

/-- The command as an HTTP request. -/
def Command.request {json : Handlers.Json} (wire : Wire json) (c : Command) : Request where
  method := "POST"
  uri := "/messages"
  header := (Header.empty.set "Authorization" c.authorization).set "Idempotency-Key" c.key
  body := wire.body c.text
  remoteAddr := ""

/-- The program of a command. -/
def issue (cfg : Handlers.Config) (wire : Wire cfg.json) : Command × Front → Handler Response
  | (c, .http) => Handlers.postMessages cfg (c.request wire) c.valid false
  | (c, .grpc) =>
    Gateway.grpcCreate cfg.json (c.request wire) fun md text => do
      let outcome ← Grpcserver.receiveCreate cfg.authEnabled c.valid md text
      return outcome.map Grpcserver.toProto

/-- The command as a request to the app. -/
def origin {json : Handlers.Json} (wire : Wire json) : Command × Front → App.Incoming
  | (c, .http) => .post (c.request wire) c.valid false
  | (c, .grpc) => .unary (Gateway.withAuth (c.request wire).header) c.text c.valid

/-- Any number of commands at once, over the environment of the app. -/
def machine (codec : EventCodec) (cfg : Handlers.Config) (wire : Wire cfg.json) :
    Machine (Command × Front) Effect Effect.Result Response (App.Env codec) Answer App.Quiet where
  handler := issue cfg wire
  arrive s _ := some s
  respond s caller := App.respond cfg s (caller.1, origin wire caller.2)
  background := App.background

/-- The state of the commands. -/
abbrev State (codec : EventCodec) :=
  Pool (Command × Front) Effect Effect.Result Response (App.Env codec)

end OtusApp.Commands
