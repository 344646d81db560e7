import OtusApp.Lib.Scope

/-!
# The life of a process

`run` of `cmd/app` and of `cmd/consumer`, and `httpserver.Run`: what they open, what they start, and
what is closed when they return, on every path. Beside them run the requests, the calls and the
workers of the servers they start, which use what was opened before the server, and the watch on the
limit, which is given a context that never ends and uses the coordinator.

Kept besides, newest first: `uses`, who has used which resource and whether it was open, and
`closes`, which resource was closed and what was open then.
-/

namespace OtusApp.Lifecycle

open Program Transition

/-- What is opened and closed: the tracing, the clients, and the servers with their requests or
workers. -/
inductive Resource
  | tracing
  | coordinator
  | store
  | outbox
  | events
  | grpc
  | http
  | metrics
  | readers
deriving DecidableEq, Repr

/-- The clients that nothing closes. -/
inductive Client
  | limiter
  | audit
  | cache
  | blobs
  | files
  | index
deriving DecidableEq, Repr

/-- How a constructor ends; without its settings there is nothing to close. -/
inductive Opened
  | failed
  | absent
  | opened
deriving DecidableEq, Repr

/-- A call of `run`. `watch` is the goroutine of `WatchInt`. `wait` is the `select` of
`httpserver.Run`: whether it was a signal that ended it. -/
inductive Call
  | new (r : Resource)
  | start (r : Resource)
  | connect (c : Client)
  | watch
  | serverTLS
  | listen
  | wait
  | close (r : Resource)

/-- What a call returns. -/
def Call.Result : Call → Type
  | .new _ => Opened
  | .start _ => Unit
  | .connect _ => Opened
  | .watch => Unit
  | .serverTLS => Bool
  | .listen => Bool
  | .wait => Bool
  | .close _ => Bool

/-- The code of a process; it returns whether there was no error. -/
abbrev Code := Prog Call Call.Result

/-- A closer whose error is not looked at. -/
def closing (r : Resource) : Code Unit := do
  let _ ← (.ask (Call.close r) : Code Bool)
  return

/-- The constructor of a client that nothing closes; its error is only logged. -/
def connecting (c : Client) : Code Unit := do
  let _ ← (.ask (Call.connect c) : Code Opened)
  return

/-- `httpserver.Run`. -/
def httpRun : Code Bool := do
  (.ask (Call.start .http) : Code Unit)
  match ← (.ask Call.wait : Code Bool) with
  | false => return false
  | true => .ask (Call.close .http)

/-- `run` of `cmd/app` from the search index on. -/
def serve : Code Bool := do
  connecting .index
  match ← (.ask Call.serverTLS : Code Bool) with
  | false => return false
  | true =>
    match ← (.ask Call.listen : Code Bool) with
    | false => return false
    | true =>
      (.ask (Call.start .grpc) : Code Unit)
      Prog.deferring (closing .grpc) httpRun

/-- `run` of `cmd/app` from Cassandra on: an error is only logged. -/
def withEvents : Code Bool := do
  match ← (.ask (Call.new .events) : Code Opened) with
  | .opened => Prog.deferring (closing .events) serve
  | _ => serve

/-- `run` of `cmd/app` from the outbox on. -/
def withOutbox : Code Bool := do
  (.ask (Call.start .outbox) : Code Unit)
  Prog.deferring (closing .outbox) do
    connecting .blobs
    connecting .files
    withEvents

/-- `run` of `cmd/app` from the limiter on; without a coordinator there is no watch. -/
def withLimiter (coordinator : Bool) : Code Bool := do
  connecting .limiter
  if coordinator then (.ask Call.watch : Code Unit)
  connecting .audit
  connecting .cache
  withOutbox

/-- `run` of `cmd/app` from the database on. -/
def withStore (coordinator : Bool) : Code Bool := do
  match ← (.ask (Call.new .store) : Code Opened) with
  | .opened => Prog.deferring (closing .store) (withLimiter coordinator)
  | _ => return false

/-- `run` of `cmd/app` from etcd on; without its settings there is a coordinator that does
nothing. -/
def withCoordinator : Code Bool := do
  match ← (.ask (Call.new .coordinator) : Code Opened) with
  | .failed => return false
  | .absent => withStore false
  | .opened => Prog.deferring (closing .coordinator) (withStore true)

/-- `run` of `cmd/app`; `dsn` is whether `DATABASE_URL` is set. -/
def runApp (dsn : Bool) : Code Bool :=
  if dsn then do
    match ← (.ask (Call.new .tracing) : Code Opened) with
    | .failed => return false
    | .absent => withCoordinator
    | .opened => Prog.deferring (closing .tracing) withCoordinator
  else return false

/-- `run` of `cmd/consumer` from the server of its metrics on: it waits for its readers. -/
def read : Code Bool := do
  (.ask (Call.start .metrics) : Code Unit)
  Prog.deferring (closing .metrics) do
    (.ask (Call.start .readers) : Code Unit)
    closing .readers
    return true

/-- `run` of `cmd/consumer` from the search index on. -/
def withIndex (events : Bool) : Code Bool := do
  match ← (.ask (Call.connect .index) : Code Opened) with
  | .failed => return false
  | .absent => if events then read else return false
  | .opened => read

/-- `run` of `cmd/consumer` from Cassandra on. -/
def withStores : Code Bool := do
  match ← (.ask (Call.new .events) : Code Opened) with
  | .failed => return false
  | .absent => withIndex false
  | .opened => Prog.deferring (closing .events) (withIndex true)

/-- `run` of `cmd/consumer`. -/
def runConsumer : Code Bool := do
  match ← (.ask (Call.new .tracing) : Code Opened) with
  | .failed => return false
  | .absent => withStores
  | .opened => Prog.deferring (closing .tracing) withStores

/-- The processes. -/
inductive Process
  | app (dsn : Bool)
  | consumer
deriving DecidableEq, Repr

/-- The code of a process. -/
def run : Process → Code Bool
  | .app dsn => runApp dsn
  | .consumer => runConsumer

/-! ## What runs beside -/

/-- Who uses what is open: a request or a worker of a server, or the watch. -/
inductive User
  | server (r : Resource)
  | watch
deriving DecidableEq, Repr

/-- What was used, and whether it was open. -/
structure Use where
  user : User
  resource : Resource
  live : Bool
deriving DecidableEq, Repr

/-- Whether the process was started; what is open, newest first, and the clients besides; what was
open when each was opened; how many requests or workers each server has; whether the HTTP server has
stopped with requests left; and whether the watch is at work. -/
structure Env where
  started : Bool
  live : List Resource
  clients : List Client
  scope : Resource → List Resource
  users : Resource → Nat
  left : Bool
  watching : Bool
  uses : List Use
  closes : List (Resource × List Resource)

/-- How a call ends. -/
inductive Choice
  | opened (r : Opened)
  | ok (ok : Bool)

/-- A resource is opened. -/
def Env.push (s : Env) (r : Resource) : Env :=
  { s with live := r :: s.live, scope := Function.update s.scope r s.live }

/-- A resource is closed. -/
def Env.pop (s : Env) (r : Resource) : Env :=
  { s with live := s.live.erase r, closes := (r, s.live) :: s.closes }

/-- The HTTP server stops; requests that it has are left alone. -/
def Env.abandon (s : Env) : Env := { s.pop .http with left := s.left || decide (s.users .http ≠ 0) }

/-- The servers that are closed only when their last request, or their last worker, has ended:
`GracefulStop`, the function that `outbox.Start` returns, and the `WaitGroup` of the readers. -/
def Resource.waits : Resource → Bool
  | .outbox | .grpc | .readers => true
  | _ => false

/-- The servers whose requests or workers use what is open. Those of the metrics use nothing that is
closed. -/
def Resource.serves (r : Resource) : Bool := r.waits || decide (r = .http)

/-- How a call is answered. `Shutdown` returns `nil` when there is no request left, or an error at
its deadline. -/
def respond (s : Env) (_ : Nat × Process) : (e : Call) → Choice → Option (e.Result × Env)
  | .new r, .opened .opened => some (.opened, s.push r)
  | .new _, .opened o => some (o, s)
  | .start r, _ => some ((), s.push r)
  | .connect c, .opened .opened => some (.opened, { s with clients := c :: s.clients })
  | .connect _, .opened o => some (o, s)
  | .watch, _ => some ((), { s with watching := true })
  | .serverTLS, .ok ok => some (ok, s)
  | .listen, .ok ok => some (ok, s)
  | .wait, .ok true => some (true, s)
  | .wait, .ok false => some (false, s.abandon)
  | .close .http, .ok true => if s.users .http = 0 then some (true, s.pop .http) else none
  | .close .http, .ok false => some (false, s.abandon)
  | .close r, .ok ok => if r.waits ∧ s.users r ≠ 0 then none else some (ok, s.pop r)
  | _, _ => none

/-- What the servers and the watch do. -/
inductive Background
  | begin (server : Resource)
  | use (server resource : Resource)
  | finish (server : Resource)
  | watch

/-- A request or a worker of a server begins while it is open, uses what was open before the server,
and ends. The watch goes on for good, and uses the coordinator. -/
def background (s : Env) : Background → Option Env
  | .begin server =>
    if server.serves ∧ server ∈ s.live then
      some { s with users := Function.update s.users server (s.users server + 1) }
    else none
  | .use server resource =>
    if 0 < s.users server ∧ resource ∈ s.scope server then
      some { s with uses := ⟨.server server, resource, decide (resource ∈ s.live)⟩ :: s.uses }
    else none
  | .finish server =>
    if 0 < s.users server then
      some { s with users := Function.update s.users server (s.users server - 1) }
    else none
  | .watch =>
    if s.watching then some
      { s with uses := ⟨.watch, .coordinator, decide (.coordinator ∈ s.live)⟩ :: s.uses } else none

/-- A process is started once. -/
def start (s : Env) (_ : Process) : Option Env :=
  if s.started then none else some { s with started := true }

/-- A process with its servers. -/
def machine : Machine Process Call Call.Result Bool Env Choice Background :=
  ⟨run, start, respond, background⟩

/-- Nothing has been opened. -/
structure Fresh (s : Env) : Prop where
  started : s.started = false
  live : s.live = []
  clients : s.clients = []
  users : ∀ r, s.users r = 0
  left : s.left = false
  watching : s.watching = false
  uses : s.uses = []
  closes : s.closes = []

/-- The state of a process. -/
abbrev State := Pool Process Call Call.Result Bool Env

/-- The life of a process. -/
def life : System State (Move Process Choice Background) := machine.system Fresh

end OtusApp.Lifecycle
