import OtusApp.Grpcserver.Server
import OtusApp.Handlers.Messages
import OtusApp.Storage.Database
import OtusApp.Tcache.Cache

/-!
# The app

Any number of replicas behind both front ends, over one database and one cache. A request is a
program of the front end that took it; the environment answers its calls, and between them the
database runs the statements of the open transactions, its clock and the replicas' move, and the
outbox workers work.

`origin` is kept besides: on behalf of which request each `Create` of the database was made.
-/

namespace OtusApp.App

open Messaging Messages Go Storage Program Transition

variable {codec : EventCodec}

/-- A request, as far as its handler depends on it, with what its middlewares found out about it:
whether the token was valid, and whether the client was over its limit. -/
inductive Incoming
  | post (req : Request) (valid exceeded : Bool)
  | get (req : Request) (exceeded : Bool)
  | unary (md : Header) (text : String) (valid : Bool)
  | batch (md : Header) (texts : List String) (ending : Grpcserver.Ending) (valid : Bool)

/-- Whether the request came in over gRPC. -/
def Incoming.rpc : Incoming → Bool
  | .post .. => false
  | .get .. => false
  | .unary .. => true
  | .batch .. => true

/-- What a request is answered. -/
inductive Reply
  | http (r : Response)
  | unary (r : Except Grpcserver.Status Message)
  | batch (r : Except Grpcserver.Status Grpcserver.Summary)

/-- A document of the audit log. -/
structure AuditEntry where
  event : String
  text : String
  time : Instant
deriving DecidableEq, Repr

/-- What lies behind the front ends. -/
structure Env (codec : EventCodec) where
  db : Database codec
  clock : Instant
  cache : Tcache.Space
  created : Nat
  audit : List AuditEntry
  origin : List (Nat × Incoming)

/-- A move of the environment by itself. -/
inductive Quiet
  | store (e : Event)
  | tick (elapsed : Nat)

/-- The program a request runs. -/
def serve (cfg : Handlers.Config) : Incoming → Handler Reply
  | .post req valid exceeded => do return .http (← Handlers.postMessages cfg req valid exceeded)
  | .get _ exceeded => do return .http (← Handlers.getMessages cfg exceeded)
  | .unary md text valid =>
    do return .unary (← Grpcserver.unaryCreate cfg.authEnabled valid md text)
  | .batch md texts ending valid =>
    do return .batch (← Grpcserver.streamBatch cfg.authEnabled valid md texts ending)

/-- How a call is answered. A lost answer is an error to the caller; a write may have happened. -/
def respond (cfg : Handlers.Config) (s : Env codec) (caller : Nat × Incoming) :
    (e : Effect) → Answer → Option (e.Result × Env codec)
  | .submit text key, answer =>
    (step codec s.db (.create text key cfg.targets (answer = .ok))).map fun db =>
      (s.db.calls.length, { s with db := db, origin := s.origin ++ [caller] })
  | .await call, _ =>
    ((s.db.calls[call]?).bind Call.result).map fun result => (result, s)
  | .list, .ok => some (.ok (Storage.list s.db.tables.messages), s)
  | .list, _ => some (.error .database, s)
  | .cacheGet key, .ok => some (Tcache.get s.cache key s.clock, s)
  | .cacheGet _, _ => some (none, s)
  | .cacheSet _ _, .failed => some ((), s)
  | .cacheSet key value, _ => some ((), { s with cache := Tcache.set s.cache key value s.clock })
  | .cacheDelete _, .failed => some ((), s)
  | .cacheDelete key, _ => some ((), { s with cache := Tcache.delete s.cache key })
  | .count, _ => some ((), { s with created := s.created + 1 })
  | .record _ _, .failed => some ((), s)
  | .record event text, _ => some ((), { s with audit := s.audit ++ [⟨event, text, s.clock⟩] })

/-- How the environment moves by itself: only the front ends open a `Create`. -/
def background (s : Env codec) : Quiet → Option (Env codec)
  | .store (.create ..) => none
  | .store e => (step codec s.db e).map fun db => { s with db := db }
  | .tick elapsed => some { s with clock := s.clock + elapsed }

/-- The app over its environment. -/
def machine (codec : EventCodec) (cfg : Handlers.Config) :
    Machine Incoming Effect Effect.Result Reply (Env codec) Answer Quiet :=
  ⟨serve cfg, fun s _ => some s, respond cfg, background⟩

/-- A database as `New` leaves it, and nothing in the cache yet. -/
def Fresh (s : Env codec) : Prop :=
  Initial s.db ∧ s.cache = [] ∧ s.created = 0 ∧ s.audit = [] ∧ s.origin = []

/-- The state of the app. -/
abbrev State (codec : EventCodec) := Pool Incoming Effect Effect.Result Reply (Env codec)

/-- The app as a transition system. -/
def app (codec : EventCodec) (cfg : Handlers.Config) :
    System (State codec) (Move Incoming Answer Quiet) :=
  (machine codec cfg).system Fresh

end OtusApp.App
