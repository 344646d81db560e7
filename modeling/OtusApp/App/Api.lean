import OtusApp.App.Files
import OtusApp.App.Site
import OtusApp.Handlers.Api

/-!
# The app with everything behind it

All routes of the HTTP front end and all methods of the gRPC one, over the database, the cache and
the audit log of `App` and the stores of `Files`. The routes are those the mux is given; which of
them a request is for is part of the request.

Each request also has what `Validate` says of any token at the moment it asks: its keys change, and
tokens expire.
-/

namespace OtusApp.Api

open Messaging Go Program Transition Handlers.Api
open Handlers.Files (Params)

variable {codec : EventCodec}

/-- The routes of `publicRoutes`, and those `New` adds. -/
inductive Route
  | ready
  | health
  | version
  | hello
  | status
  | audit
  | listMessages
  | createMessage
  | file (route : Files.Route)
  | swagger
  | metrics
  | root
deriving DecidableEq, Repr

/-- A request of either front end. -/
inductive Call
  | http (route : Route) (params : Params) (exceeded : Bool)
  | createMessage (md : Header) (text : String)
  | listMessages (md : Header) (limit : Int) (sends : Option Nat)
  | batchCreate (md : Header) (texts : List String) (ending : Grpcserver.Ending)
  | chat (md : Header) (notes : List String) (ending : Grpcserver.Ending) (sends : Option Nat)

/-- A request, and what `Validate` accepts when it is checked. -/
structure Visit where
  call : Call
  accepts : String → Bool

/-- The first `Authorization` value. -/
def Call.authorization : Call → String
  | .http _ params _ => params.request.header.get "Authorization"
  | .createMessage md _ => md.get "authorization"
  | .listMessages md .. => md.get "authorization"
  | .batchCreate md .. => md.get "authorization"
  | .chat md .. => md.get "authorization"

/-- Whether `Validate` accepts the token of the request. -/
def Visit.valid (v : Visit) : Bool :=
  match cutPrefix v.call.authorization "Bearer " with
  | some raw => v.accepts raw
  | none => false

/-- What a request is answered. -/
inductive Reply
  | http (r : Handlers.Api.Reply)
  | unary (r : Except Grpcserver.Status Message)
  | messages (sent : List Message × Option Grpcserver.Status)
  | batch (r : Except Grpcserver.Status Grpcserver.Summary)
  | notes (sent : List String × Option Grpcserver.Status)

/-- The file routes and their middlewares. -/
def fileRoute (cfg : Config) (route : Files.Route) (r : Params) (valid exceeded : Bool) :
    Handler Handlers.Api.Reply :=
  let next := do return .file (← file (Files.serve cfg.files ⟨route, r⟩))
  match route with
  | .search => limited cfg exceeded next
  | .upload => authorized cfg r.request valid next
  | .tags => authorized cfg r.request valid next
  | _ => next

/-- `publicRoutes`, and the routes `New` adds. -/
def publicRoutes (cfg : Config) (route : Route) (r : Params) (valid exceeded : Bool) :
    Handler Handlers.Api.Reply :=
  match route with
  | .ready => readiness cfg
  | .health => return health
  | .version => return versionInfo cfg
  | .hello => limited cfg exceeded (return hello r)
  | .status => statusPage cfg
  | .audit => listAudit cfg
  | .listMessages => do return .message (← message (Handlers.getMessages cfg.messages exceeded))
  | .createMessage =>
    do return .message (← message (Handlers.postMessages cfg.messages r.request valid exceeded))
  | .file route => fileRoute cfg route r valid exceeded
  | .swagger => return docs (App.path r.request.uri)
  | .metrics => return .metrics
  | .root => return hello r

/-- The program a request runs. -/
def serve (cfg : Config) (v : Visit) : Handler Reply :=
  let enabled := cfg.messages.authEnabled
  match v.call with
  | .http route r exceeded => do return .http (← publicRoutes cfg route r v.valid exceeded)
  | .createMessage md text => do
    return .unary (← message (Grpcserver.receiveCreate enabled v.valid md text))
  | .listMessages md limit sends => do
    return .messages (← message (Grpcserver.streamList enabled v.valid md limit sends))
  | .batchCreate md texts ending => do
    return .batch (← message (Grpcserver.streamBatch enabled v.valid md texts ending))
  | .chat md notes ending sends =>
    return .notes (Grpcserver.streamChat enabled v.valid md notes ending sends)

/-! ## What lies behind -/

/-- Everything behind the app. -/
structure Env (codec : EventCodec) where
  app : App.Env codec
  files : Files.Env

/-- What a call leaves open. -/
structure Choice where
  answer : Storage.Answer
  file : Files.Choice

/-- The request on whose behalf a message is created; the others create none. -/
def Visit.origin (v : Visit) : App.Incoming :=
  match v.call with
  | .http .createMessage r exceeded => .post r.request v.valid exceeded
  | .http _ r exceeded => .get r.request exceeded
  | .createMessage md text => .unary md text v.valid
  | .listMessages md _ _ => .batch md [] .eof v.valid
  | .batchCreate md texts ending => .batch md texts ending v.valid
  | .chat md _ ending _ => .batch md [] ending v.valid

/-- The newest entries of the audit log. -/
def lastEntries (log : List App.AuditEntry) (n : Int) : List Entry :=
  let newest := log.mergeSort fun a b => decide (b.time ≤ a.time)
  (newest.take n.toNat).map fun a => ⟨a.event, a.text, a.time⟩

/-- How a call is answered. -/
def respond (cfg : Config) (s : Env codec) (caller : Nat × Visit) :
    (e : Effect) → Choice → Option (e.Result × Env codec)
  | .message e, c =>
    (App.respond cfg.messages s.app (caller.1, caller.2.origin) e c.answer).map fun (r, app) =>
      (r, { s with app := app })
  | .file e, c =>
    (Files.respond s.files e c.file).map fun (r, files) => (r, { s with files := files })
  | .ping, c => some (decide (c.answer = .ok), s)
  | .last n, c =>
    match c.answer with
    | .ok => some (some (lastEntries s.app.audit n), s)
    | _ => some (none, s)

/-- How the environment moves by itself. -/
def background (s : Env codec) : App.Quiet → Option (Env codec)
  | .store e => (App.background s.app (.store e)).map fun app => { s with app := app }
  | .tick elapsed =>
    (App.background s.app (.tick elapsed)).bind fun app =>
      (Files.tick s.files elapsed).map fun files => ⟨app, files⟩

/-- The app over its environment. -/
def machine (codec : EventCodec) (cfg : Config) :
    Machine Visit Effect Effect.Result Reply (Env codec) Choice App.Quiet :=
  ⟨serve cfg, fun s _ => some s, respond cfg, background⟩

/-- The state of the app. -/
abbrev State (codec : EventCodec) := Pool Visit Effect Effect.Result Reply (Env codec)

end OtusApp.Api
