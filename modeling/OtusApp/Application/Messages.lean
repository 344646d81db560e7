import OtusApp.Domain.Messaging
import OtusApp.Go.Http
import OtusApp.Lib.Program

/-!
# The message commands and queries

`internal/application/messages`: the service both front ends call. The calls a front end makes on
what lies behind it are `Effect`s: the two halves of a `Create` on the store, the list, the cache,
the counter of created messages and the audit log. A `Create` is two calls because other
transactions run between its statements: `submit` opens it, and `await` takes its result.
-/

namespace OtusApp.Messages

open Messaging Go Program

/-- A call of a front end. -/
inductive Effect
  | submit (text key : String)
  | await (call : Nat)
  | list
  | cacheGet (key : String)
  | cacheSet (key : String) (value : Bytes)
  | cacheDelete (key : String)
  | count
  | record (event text : String)

/-- What a call answers. -/
def Effect.Result : Effect → Type
  | .submit _ _ => Nat
  | .await _ => Except Err Message
  | .list => Except Err (List Message)
  | .cacheGet _ => Option Bytes
  | .cacheSet _ _ => Unit
  | .cacheDelete _ => Unit
  | .count => Unit
  | .record _ _ => Unit

/-- The code of a front end. -/
abbrev Handler := Prog Effect Effect.Result

def submit (text key : String) : Handler Nat := .ask (Effect.submit text key)

def await (call : Nat) : Handler (Except Err Message) := .ask (Effect.await call)

def cacheGet (key : String) : Handler (Option Bytes) := .ask (Effect.cacheGet key)

def cacheSet (key : String) (value : Bytes) : Handler Unit := .ask (Effect.cacheSet key value)

def cacheDelete (key : String) : Handler Unit := .ask (Effect.cacheDelete key)

/-- `observability.MessagesCreated.Inc`. -/
def count : Handler Unit := .ask Effect.count

/-- `AuditLog.Record`. -/
def record (event text : String) : Handler Unit := .ask (Effect.record event text)

/-- `Service.Create`. -/
def create (text key : String) : Handler (Except Err Message) :=
  match validateText text with
  | .error err => return .error err
  | .ok () => do
    let call ← submit text key
    await call

/-- `Service.List`. -/
def list : Handler (Except Err (List Message)) := .ask Effect.list

end OtusApp.Messages
