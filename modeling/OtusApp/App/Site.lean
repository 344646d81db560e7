import OtusApp.App.Machine
import OtusApp.Lib.Hop

/-!
# The app as a server of HTTP requests

The part of `publicRoutes` that serves messages, and the app as a `Site`: the requests that arrive
over HTTP, each with its answer once there is one.
-/

namespace OtusApp.App

open Messages Go Program Hop

variable {codec : Messaging.EventCodec}

/-- The path of a request's URI. -/
def path (uri : String) : String := String.ofList (uri.toList.takeWhile (· ≠ '?'))

/-- What the middlewares find out about a request. -/
structure Checks where
  valid : Bool
  exceeded : Bool

/-- The routes `POST /messages` and `GET /messages`. -/
def route (req : Request) (checks : Checks) : Option Incoming :=
  if path req.uri ≠ "/messages" then none
  else if req.method = "POST" then some (.post req checks.valid checks.exceeded)
  else if req.method = "GET" then some (.get req checks.exceeded)
  else none

/-- The HTTP request behind an incoming one. -/
def Incoming.request : Incoming → Option Request
  | .post req .. => some req
  | .get req _ => some req
  | .unary .. => none
  | .batch .. => none

/-- The app as a server of HTTP requests. -/
def site (codec : Messaging.EventCodec) (cfg : Handlers.Config) :
    Site Request Response (State codec) (Move Incoming Storage.Answer Quiet) Checks where
  init w := Fresh w.env ∧ w.procs = [] ∧ w.answered = []
  step := (machine codec cfg).step
  accept w req checks :=
    (route req checks).bind fun q =>
      ((machine codec cfg).step w (.arrive q)).map fun w' => (w.procs.length, w')
  handles w p := (w.procs[p]?).bind fun entry => entry.1.request
  result w p :=
    match w.procs[p]? with
    | some (_, .ret (.http r)) => some r
    | _ => none

end OtusApp.App
