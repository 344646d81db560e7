import OtusApp.Handlers.Messages
import OtusApp.Lib.Hop
import Mathlib.Algebra.Group.Nat.Defs
import Mathlib.Data.Rat.Defs

/-!
# The chaos proxy

`proxy.ServeHTTP` of `cmd/chaosproxy`: a request is dropped, or sent on to the app once or twice,
and the last answer comes back. The faults are those in force when the request came in. A delay and
a throttle take time and change nothing else: the steps of everything around the proxy fall in
between in any case.
-/

namespace OtusApp.Chaosproxy

open Go Hop

/-- `faults`. -/
structure Faults where
  delayMs : Int
  repeat_ : Bool
  dropRate : Rat
  throttleBps : Int

/-- The faults in force, what is drawn for a request, and what becomes of the connections: whether
the body was read, whether the request could be built, the address it is sent from, and how much of
the answer came through. -/
structure Draws where
  faults : Faults
  float64 : Rat
  read : Bool
  built : Bool
  address : String
  cut : Option Nat

/-- The largest body that is read. -/
def bodyLimit : Nat := 2 ^ 20

/-- One attempt: the request is built and sent, and `next` goes on with the answer. -/
def attempt (json : Handlers.Json) (out : Request) (x : Draws)
    (next : Response → Client Request Response Response) : Client Request Response Response :=
  if x.built then do
    match ← call out with
    | none => return Handlers.writeError json 502 "app недоступен"
    | some resp => next resp
  else return Handlers.writeError json 500 "не удалось собрать запрос"

/-- The loop over the attempts, of which `left` follow this one: the last answer comes back. -/
def loop (json : Handlers.Json) (out : Request) (x : Draws) : Nat → Client Request Response Response
  | 0 => attempt json out x fun resp => return ⟨resp.status, resp.header, through x.cut resp.body⟩
  | left + 1 => attempt json out x fun _ => loop json out x left

/-- `proxy.ServeHTTP`. -/
def serveHTTP (json : Handlers.Json) (req : Request) (x : Draws) :
    Client Request Response Response :=
  if x.faults.dropRate > 0 ∧ x.float64 < x.faults.dropRate then
    return Handlers.writeError json 502 "запрос оборван прокси"
  else if x.read then
    let attempts := if x.faults.repeat_ ∧ req.method ≠ "GET" then 2 else 1
    let out := { req with body := req.body.take bodyLimit, remoteAddr := x.address }
    loop json out x (attempts - 1)
  else return Handlers.writeError json 400 "не удалось прочитать тело запроса"

end OtusApp.Chaosproxy
