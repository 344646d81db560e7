import OtusApp.App.Site
import OtusApp.Chaosproxy.Proxy
import OtusApp.Go.Http
import OtusApp.Go.Strconv
import OtusApp.Handlers.Messages
import OtusApp.Lib.Hop

/-!
# The gateway

`forward` of `cmd/gateway`: a request for messages goes on to the app, with a key for idempotency if
it has none, and the answer comes back. What the gateway draws and what becomes of its connections
is given with the request.
-/

namespace OtusApp.Gateway

open Messaging Go Hop

/-- `hopHeaders`. -/
def hopHeaders : List String :=
  ["Connection", "Keep-Alive", "Proxy-Authenticate", "Proxy-Authorization", "Te", "Trailer",
    "Transfer-Encoding", "Upgrade"]

/-- `strings.EqualFold`, on names in ASCII. -/
def equalFold (a b : String) : Bool := a.toList.map Char.toLower = b.toList.map Char.toLower

/-- `isHopHeader`. -/
def isHopHeader (name : String) : Bool := hopHeaders.any (equalFold name)

/-- `copyHeaders`. -/
def copyHeaders (dst src : Header) : Header :=
  fun name => if isHopHeader name then dst name else dst name ++ src name

/-- What the gateway draws for a request, and what becomes of its connections: whether the request
could be built, the address it is sent from, and how much of the answer came through. -/
structure Draws where
  entropy : Option (Vector UInt8 16)
  nanos : Int
  built : Bool
  address : String
  cut : Option Nat

/-- `newIdemKey`: sixteen random bytes, or the clock if there are none. -/
def newIdemKey (x : Draws) : String :=
  match x.entropy with
  | some buf => hexEncode buf.toList
  | none => formatInt x.nanos 36

/-- The header of the request to the app. -/
def forwardHeader (method : String) (req : Request) (x : Draws) : Header :=
  let copied := copyHeaders Header.empty req.header
  let keyed := if method = "POST" ∧ copied.get "Idempotency-Key" = "" then
    copied.set "Idempotency-Key" (newIdemKey x) else copied
  match splitHostPort req.remoteAddr with
  | none => keyed
  | some (host, _) =>
    let prior := req.header.get "X-Forwarded-For"
    keyed.set "X-Forwarded-For" (if prior ≠ "" then prior ++ ", " ++ host else host)

/-- `forward`. -/
def forward (json : Handlers.Json) (method : String) (req : Request) (x : Draws) :
    Client Request Response Response :=
  if x.built then do
    let body := if method = "POST" then req.body else []
    match ← call ⟨method, "/messages", forwardHeader method req x, body, x.address⟩ with
    | none => return Handlers.writeError json 502 "app недоступен"
    | some resp =>
      return ⟨resp.status, copyHeaders Header.empty resp.header, through x.cut resp.body⟩
  else return Handlers.writeError json 500 "не удалось собрать запрос"

/-- `proxyCreate`, the route `POST /gw/messages`. -/
def proxyCreate (json : Handlers.Json) (req : Request) (x : Draws) :
    Client Request Response Response :=
  forward json "POST" req x

/-! ## The path through the gateway

Gateway, chaos proxy and app, one behind the other, with any number of requests on each. Whatever is
sent from one to the next may arrive any number of times, late or never, and its sender may see an
error at any moment; the app's own failures are those of its environment. -/

/-- The chaos proxy in front of the app. -/
def proxied (codec : EventCodec) (cfg : Handlers.Config) :=
  (App.site codec cfg).behind (Chaosproxy.serveHTTP cfg.json)

/-- The gateway in front of the chaos proxy. -/
def path (codec : EventCodec) (cfg : Handlers.Config) :=
  (proxied codec cfg).behind (proxyCreate cfg.json)

end OtusApp.Gateway
