import OtusApp.Go.Http
import OtusApp.Resilience.Guard
import OtusApp.Resilience.Policy

/-!
# Requests that are sent again

`HTTPTransport.RoundTrip`: a request through the breaker and the policy, sent on by a base transport
that is left open. Its responses are told apart by the number of the attempt that was answered with
them, and the body of the request by whether it is the one the caller gave or a copy from `GetBody`.
-/

namespace OtusApp.Resilience.Http

open Go Program

/-- `Request.Body`. -/
inductive Body
  | nil
  | noBody
  | stream (bytes : Bytes)
deriving DecidableEq, Repr

/-- What the body holds. -/
def Body.bytes : Body → Bytes
  | .nil => []
  | .noBody => []
  | .stream bytes => bytes

/-- The request, as its caller made it. `getBody` says whether it has a `GetBody`. -/
structure Outgoing where
  method : String
  url : String
  header : Header
  body : Body
  getBody : Bool

/-- The body an attempt is sent with. -/
inductive Payload
  | original
  | copy (bytes : Bytes)
deriving DecidableEq, Repr

/-- The request of an attempt. -/
structure Sent where
  method : String
  url : String
  header : Header
  body : Payload

/-- An error of the base transport or of `GetBody`: whether it is, or wraps, a `net.Error`, `io.EOF`
or `io.ErrUnexpectedEOF`, and whether it wraps `context.Canceled`. -/
structure Fault where
  transient : Bool
  canceled : Bool
  text : String
deriving DecidableEq, Repr

/-- How a context has ended. -/
inductive Ended
  | canceled
  | deadlineExceeded
deriving DecidableEq, Repr

/-- The errors in `RoundTrip`: `errTemporaryHTTP`, `ErrOpen`, that of the context and those from
outside. -/
inductive Err
  | temporary
  | open_
  | ended (e : Ended)
  | fault (f : Fault)
deriving DecidableEq, Repr

/-- `errors.Is(err, context.Canceled)`. -/
def Err.canceled : Err → Bool
  | .temporary => false
  | .open_ => false
  | .ended e => e = .canceled
  | .fault f => f.canceled

/-- What `RoundTrip` calls. A response is closed by the number of its attempt. -/
inductive Call
  | err
  | admit_
  | complete (generation : UInt64) (outcome : Outcome)
  | retried
  | exhausted
  | draw
  | wait (delay : Duration)
  | getBody
  | roundTrip (next : Sent)
  | closeResponse (attempt : Nat)
  | closeBody

/-- What it is answered. An error of the base transport comes without a response. -/
def Call.Result : Call → Type
  | .err => Option Ended
  | .admit_ => Option UInt64
  | .complete _ _ => Unit
  | .retried => Unit
  | .exhausted => Unit
  | .draw => Nat
  | .wait _ => Option Ended
  | .getBody => Except Fault Bytes
  | .roundTrip _ => Except Fault Response
  | .closeResponse _ => Unit
  | .closeBody => Unit

/-- The code of the transport. -/
abbrev Trip := Prog Call Call.Result

/-- `ctx.Err`. -/
def ctxErr : Trip (Option Err) := do
  let ended ← (.ask Call.err : Trip (Option Ended))
  return ended.map .ended

/-- The breaker of the transport. -/
def breaker : Guard Call Call.Result Err where
  err := ctxErr
  admit_ := .ask Call.admit_
  complete generation outcome := .ask (Call.complete generation outcome)
  errOpen := .open_
  canceled := Err.canceled

/-- What its policy reaches. -/
def retrier : Retrier Call Call.Result Err where
  err := ctxErr
  retried := .ask Call.retried
  exhausted := .ask Call.exhausted
  draw := .ask Call.draw
  wait delay := do
    let ended ← (.ask (Call.wait delay) : Trip (Option Ended))
    return ended.map .ended

/-- The policy of `NewHTTPTransport`. -/
def policy : Policy := ⟨3, 100 * Duration.millisecond, 2 * Duration.second⟩

/-- `safe`. -/
def safe (req : Outgoing) : Bool :=
  (req.method = "GET" ∨ req.method = "HEAD" ∨ req.method = "PUT") ∧
    (req.body = .nil ∨ req.body = .noBody ∨ req.getBody)

/-- The errors after which a request is sent again. -/
def retryable (req : Outgoing) : Err → Bool
  | .temporary => safe req
  | .open_ => false
  | .ended e => safe req && e = .deadlineExceeded
  | .fault f => safe req && f.transient

/-- The statuses that are `errTemporaryHTTP`. -/
def temporary (status : Nat) : Bool :=
  status = 429 ∨ status = 500 ∨ status = 502 ∨ status = 503 ∨ status = 504

/-- A response, and the number of the attempt it answers. -/
structure Held where
  attempt : Nat
  response : Response

/-- `response` and `attempt`, which the closures share. -/
structure Vars where
  response : Option Held
  attempt : Nat

/-- `response.Body.Close`, where there is a response. -/
def closeHeld : Option Held → Trip Unit
  | none => return
  | some held => .ask (Call.closeResponse held.attempt)

/-- The body of the next attempt. The first has that of the request. -/
def nextBody (req : Outgoing) (vars : Vars) : Trip (Except Fault Payload) :=
  if vars.attempt > 0 then do
    closeHeld vars.response
    if req.getBody then
      let body ← (.ask Call.getBody : Trip (Except Fault Bytes))
      return body.map .copy
    else return .ok .original
  else return .ok .original

/-- What an attempt leaves. -/
def answered (vars : Vars) : Except Fault Response → Option Err × Vars
  | .error f => (some (.fault f), ⟨none, vars.attempt + 1⟩)
  | .ok response => (if temporary response.status then some .temporary else none,
      ⟨some ⟨vars.attempt + 1, response⟩, vars.attempt + 1⟩)

/-- One attempt. -/
def call (req : Outgoing) (vars : Vars) : Trip (Option Err × Vars) := do
  match ← nextBody req vars with
  | .error f => return (some (.fault f), vars)
  | .ok body =>
    let answer ← (.ask (Call.roundTrip ⟨req.method, req.url, req.header, body⟩) :
      Trip (Except Fault Response))
    return answered vars answer

/-- The end of `RoundTrip` with an error. -/
def failed (req : Outgoing) (vars : Vars) (e : Err) : Trip (Option Held × Option Err) := do
  closeHeld vars.response
  if vars.attempt = 0 ∧ req.body ≠ .nil then
    (.ask Call.closeBody : Trip Unit)
  return (none, some e)

/-- The end of `RoundTrip`. -/
def finish (req : Outgoing) : Option Err × Vars → Trip (Option Held × Option Err)
  | (some .temporary, vars) => return (vars.response, none)
  | (some e, vars) => failed req vars e
  | (none, vars) => return (vars.response, none)

/-- `HTTPTransport.RoundTrip`. -/
def roundTrip (req : Outgoing) : Trip (Option Held × Option Err) := do
  let result ← breaker.do_ ⟨none, 0⟩ (policy.do_ retrier (retryable req) (call req) ⟨none, 0⟩)
  finish req result

end OtusApp.Resilience.Http
