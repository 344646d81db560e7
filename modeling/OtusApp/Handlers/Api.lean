import OtusApp.Handlers.Storage

/-!
# The rest of the HTTP front end

The handlers that answer from the configuration, from the store's list and from the audit log, as
programs over everything behind the app. Of the pages, the text is left out: the status page is
given by its data, those of the documentation and of the metrics by their names.
-/

namespace OtusApp.Handlers.Api

open Messaging Go Program

/-- `audit.Entry`. -/
structure Entry where
  event : String
  text : String
  time : Instant
deriving DecidableEq, Repr

/-- A call on anything behind the app. -/
inductive Effect
  | message (e : Messages.Effect)
  | file (e : Files.Effect)
  | ping
  | last (n : Int)

/-- What a call returns: the readiness check, whether it passed; the audit log, its entries or an
error. -/
def Effect.Result : Effect → Type
  | .message e => e.Result
  | .file e => e.Result
  | .ping => Bool
  | .last _ => Option (List Entry)

/-- The code of the front ends. -/
abbrev Handler := Prog Effect Effect.Result

/-- What an app is configured with. -/
structure Config where
  messages : Handlers.Config
  files : Files.Config
  readiness : Bool
  tlsEnabled : Bool
  version : String
  date : String
  startedAt : Instant

/-- The values these handlers encode. -/
inductive Payload
  | status (text : String)
  | version (version date : String)
  | message (text : String)
  | error (text : String)
  | entries (found : List Entry)
deriving DecidableEq, Repr

/-- `statusData`; the times are not rounded or formatted, and the error of the list is not put into
words. -/
structure StatusData where
  version : String
  buildDate : String
  uptime : Duration
  now : Instant
  dbOK : Bool
  dbError : Option Err
  total : Nat
  badChecksums : Nat
  tlsEnabled : Bool
  authEnabled : Bool
deriving DecidableEq, Repr

/-- What is answered under `/swagger`. -/
inductive Docs
  | index
  | openapi
  | redirect
  | notFound
deriving DecidableEq, Repr

/-- An answer of the HTTP front end. -/
inductive Reply
  | json (status : Nat) (payload : Payload)
  | message (r : Response)
  | file (r : Files.Reply)
  | page (data : StatusData)
  | docs (page : Docs)
  | metrics

/-- The status of an answer. -/
def Reply.status : Reply → Nat
  | .json status _ => status
  | .message r => r.status
  | .file r => r.status
  | .page _ => 200
  | .docs .index => 200
  | .docs .openapi => 200
  | .docs .redirect => 301
  | .docs .notFound => 404
  | .metrics => 200

/-- The code of the message handlers. -/
def message {α : Type} (code : Messages.Handler α) : Handler α :=
  code.lift Effect.message fun _ r => r

/-- The code of the file handlers. -/
def file {α : Type} (code : Files.Handler α) : Handler α := code.lift Effect.file fun _ r => r

/-! ## The handlers -/

/-- `health`. -/
def health : Reply := .json 200 (.status "работает")

/-- `versionInfo`. -/
def versionInfo (cfg : Config) : Reply := .json 200 (.version cfg.version cfg.date)

/-- `hello`. -/
def hello (r : Files.Params) : Reply :=
  let name := if r.query "name" = "" then "мир" else r.query "name"
  .json 200 (.message ("Привет, " ++ name ++ "!"))

/-- `readiness`. -/
def readiness (cfg : Config) : Handler Reply :=
  if cfg.readiness then do
    match ← (.ask Effect.ping : Handler Bool) with
    | true => return .json 200 (.status "готов")
    | false => return .json 503 (.status "база данных недоступна")
  else return .json 200 (.status "готов")

/-- `listAudit`. -/
def listAudit (cfg : Config) : Handler Reply :=
  if cfg.messages.audited then do
    match ← (.ask (Effect.last 10) : Handler (Option (List Entry))) with
    | none => return .json 500 (.error "не удалось получить аудит-лог")
    | some entries => return .json 200 (.entries entries)
  else return .json 503 (.error "аудит-лог не настроен")

/-- `statusPage`. -/
def statusPage (cfg : Config) : Handler Reply := do
  let since ← file Files.now
  let now ← file Files.now
  let found ← message Messages.list
  let data : StatusData :=
    { version := cfg.version, buildDate := cfg.date, uptime := since - cfg.startedAt, now := now,
      dbOK := false, dbError := none, total := 0, badChecksums := 0, tlsEnabled := cfg.tlsEnabled,
      authEnabled := cfg.messages.authEnabled }
  match found with
  | .error err => return .page { data with dbError := some err }
  | .ok msgs =>
    let bad := msgs.countP fun m => !m.checksumOk
    return .page { data with dbOK := true, total := msgs.length, badChecksums := bad }

/-- `apidocs.Handler`. -/
def docs (path : String) : Reply :=
  if path = "/swagger/" then .docs .index
  else if path = "/swagger/openapi.yaml" then .docs .openapi
  else if path = "/swagger" then .docs .redirect
  else .docs .notFound

/-! ## The middlewares -/

/-- `Limiter.Middleware`. -/
def limited (cfg : Config) (exceeded : Bool) (next : Handler Reply) : Handler Reply :=
  if exceeded then
    return .message (writeError cfg.messages.json 429 "слишком много запросов, попробуйте позже")
  else next

/-- `Auth.Middleware`. -/
def authorized (cfg : Config) (req : Request) (valid : Bool) (next : Handler Reply) :
    Handler Reply :=
  match Security.authorize cfg.messages.authEnabled valid (req.header.get "Authorization") with
  | some text => return .message (writeError cfg.messages.json 401 text)
  | none => next

end OtusApp.Handlers.Api
