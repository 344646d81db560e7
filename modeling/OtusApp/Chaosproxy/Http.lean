import OtusApp.Chaosproxy.Proxy
import OtusApp.Go.Client

/-!
# The chaos proxy and its HTTP client

`proxy.ServeHTTP` once more, for a request that has come in completely, and with all that lies
between it and the app: the URL it builds, and the `http.Client` it sends its requests with. The
answer is written as it was read.

The app answers every request it receives, sooner or later, and remembers them; any other server a
redirect leads to may answer or not.
-/

namespace OtusApp.Chaosproxy.Http

open Go Program

variable (lib : NetHttp) (json : Handlers.Json) (base : String)

/-- `http.NewRequestWithContext`, and the header. -/
def newRequest (req : Request) (body : Bytes) : Option ClientRequest :=
  ((lib.requestTarget req.method req.uri).bind (lib.parse base)).map fun url =>
    ⟨req.method, url, req.header, body⟩

/-- The `Timeout` of the proxy's client. -/
def clientTimeout : Duration := 30 * Duration.second

/-- What the proxy answers when its client is given no answer. -/
def unavailable : Response := Handlers.writeError json 502 "app недоступен"

/-- One attempt: the request is built and sent, and `next` goes on with the answer. -/
def attempt (out : Option ClientRequest) (next : Response → Exchange Response) :
    Exchange Response :=
  match out with
  | none => return Handlers.writeError json 500 "не удалось собрать запрос"
  | some o => do
    match ← lib.do_ clientTimeout o with
    | none => return unavailable json
    | some resp => next resp

/-- The loop over the attempts, of which `left` follow this one: the last answer comes back. -/
def loop (out : Option ClientRequest) : Nat → Exchange Response
  | 0 => attempt lib json out fun resp => return resp
  | left + 1 => attempt lib json out fun _ => loop out left

/-- `proxy.ServeHTTP`. -/
def serveHTTP (faults : Faults) (float64 : Rat) (req : Request) : Exchange Response :=
  if faults.dropRate > 0 ∧ float64 < faults.dropRate then
    return Handlers.writeError json 502 "запрос оборван прокси"
  else
    let attempts := if faults.repeat_ ∧ req.method ≠ "GET" then 2 else 1
    loop lib json (newRequest lib base req (req.body.take bodyLimit)) (attempts - 1)

/-- What the app has received, and how many requests have gone to other servers. -/
structure Net where
  received : List ClientRequest
  elsewhere : Nat

/-- How a request is answered: by the app, or by another server. -/
def answer (app : Nat → RawResponse) (others : Nat → Option RawResponse) (s : Net)
    (o : ClientRequest) : Option RawResponse × Net :=
  if o.url.host = base then (some (app s.received.length), { s with received := s.received ++ [o] })
  else (others s.elsewhere, { s with elsewhere := s.elsewhere + 1 })

/-- A request from its arrival to its answer, and what has been received for it. -/
def serve (app : Nat → RawResponse) (others : Nat → Option RawResponse) (faults : Faults)
    (float64 : Rat) (req : Request) :
    Response × Net :=
  (serveHTTP lib json base faults float64 req).exec (answer base app others) ⟨[], 0⟩

end OtusApp.Chaosproxy.Http

namespace OtusApp.Chaosproxy

/-- No fault at all. -/
def Faults.off : Faults := ⟨0, false, 0, 0⟩

end OtusApp.Chaosproxy
