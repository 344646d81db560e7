import OtusApp.Application.Messages
import OtusApp.Security.Jwt

/-!
# The HTTP front end for messages

`createMessage` and `listMessages` behind their middlewares. Reading and writing JSON is left to
`Json`: what a body decodes to, and the bytes a value becomes, if it can be encoded.
-/

namespace OtusApp.Handlers

open Messaging Messages Go

/-- The JSON of this interface. -/
structure Json where
  text : Bytes → Option String
  error : String → Bytes
  message : Message → Option Bytes
  messages : List Message → Option Bytes

/-- Messages written as their identifiers: the simplest encoding. -/
def plainJson : Json where
  text body := some (String.ofList (body.map fun b => Char.ofNat b.toNat))
  error := Go.bytes
  message m := some [UInt8.ofNat m.id]
  messages ms := some (ms.map fun m => UInt8.ofNat m.id)

/-- What an app is configured with. -/
structure Config where
  json : Json
  targets : List String
  cached : Bool
  audited : Bool
  authEnabled : Bool

/-- The header of every JSON answer. -/
def jsonHeader : Header := Header.empty.set "Content-Type" "application/json"

/-- The bytes `Encode` writes: the value and a newline, or nothing when it fails. -/
def encoded (raw : Option Bytes) : Bytes :=
  match raw with
  | some raw => raw ++ [10]
  | none => []

/-- `writeJSON`. -/
def writeJSON (status : Nat) (raw : Option Bytes) : Response := ⟨status, jsonHeader, encoded raw⟩

/-- `writeJSON` of an error text. -/
def writeError (json : Json) (status : Nat) (text : String) : Response :=
  writeJSON status (some (json.error text))

/-- The key of the list in the cache. -/
def listKey : String := "messages"

/-- The entry in the audit log, if one is configured. -/
def audit (cfg : Config) (text : String) : Handler Unit :=
  if cfg.audited then record "создано сообщение" text else return

/-- The list is taken out of the cache, if one is configured. -/
def invalidate (cfg : Config) : Handler Unit :=
  if cfg.cached then cacheDelete listKey else return

/-- `createMessage`. -/
def createMessage (cfg : Config) (req : Request) : Handler Response :=
  match cfg.json.text req.body with
  | none => return writeError cfg.json 400 "некорректное тело запроса"
  | some text =>
    match validateText text with
    | .error _ => return writeError cfg.json 400 "поле text обязательно"
    | .ok () => do
      match ← create text (req.header.get "Idempotency-Key") with
      | .error .idempotencyConflict =>
        return writeError cfg.json 409 (Err.idempotencyConflict.message.getD "")
      | .error _ => return writeError cfg.json 500 "не удалось сохранить сообщение"
      | .ok msg => do
        count
        audit cfg msg.text
        invalidate cfg
        return writeJSON 201 (cfg.json.message msg)

/-- The answer from the cache. -/
def hit (raw : Bytes) : Response := ⟨200, jsonHeader.set "X-Cache" "HIT", raw⟩

/-- The answer from the store, to a request that looked into the cache first. -/
def miss (json : Json) (msgs : List Message) : Response :=
  ⟨200, jsonHeader.set "X-Cache" "MISS", encoded (json.messages msgs)⟩

/-- `listMessages` past the cache. -/
def listStored (cfg : Config) : Handler Response := do
  match ← list with
  | .error _ => return writeError cfg.json 500 "не удалось получить сообщения"
  | .ok msgs =>
    if cfg.cached then
      match cfg.json.messages msgs with
      | some raw => do
        cacheSet listKey raw
        return miss cfg.json msgs
      | none => return miss cfg.json msgs
    else return writeJSON 200 (cfg.json.messages msgs)

/-- `listMessages`. -/
def listMessages (cfg : Config) : Handler Response :=
  if cfg.cached then do
    match ← cacheGet listKey with
    | some raw => return hit raw
    | none => listStored cfg
  else listStored cfg

/-- `Limiter.Middleware`: the request goes on unless it is over the limit. -/
def limited (cfg : Config) (exceeded : Bool) (next : Handler Response) : Handler Response :=
  if exceeded then
    return writeError cfg.json 429 "слишком много запросов, попробуйте позже"
  else next

/-- `Auth.Middleware`. -/
def authorized (cfg : Config) (req : Request) (valid : Bool) (next : Handler Response) :
    Handler Response :=
  match Security.authorize cfg.authEnabled valid (req.header.get "Authorization") with
  | some text => return writeError cfg.json 401 text
  | none => next

/-- The route `POST /messages`. -/
def postMessages (cfg : Config) (req : Request) (valid exceeded : Bool) : Handler Response :=
  authorized cfg req valid (limited cfg exceeded (createMessage cfg req))

/-- The route `GET /messages`. -/
def getMessages (cfg : Config) (exceeded : Bool) : Handler Response :=
  limited cfg exceeded (listMessages cfg)

end OtusApp.Handlers
