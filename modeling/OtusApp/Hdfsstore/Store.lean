import OtusApp.Go.Duration
import OtusApp.Go.Http
import OtusApp.Go.Path
import OtusApp.Resilience.Policy

/-!
# The file store

`internal/hdfsstore` over the HDFS client: its methods are programs whose calls are the client's.
The metrics of the store are left out.
-/

namespace OtusApp.Hdfsstore

open Go Program Resilience

/-- `File`. -/
structure File where
  name : String
  path : String
  size : Int
  modified : Instant
deriving DecidableEq, Repr

/-- An error of the client or of the context; `replicating` is the one `IsErrReplicating` tells. -/
inductive Err
  | client
  | replicating
  | context
deriving DecidableEq, Repr

/-- What `os.FileInfo` says of an entry. -/
structure Info where
  name : String
  size : Int
  modTime : Instant
  isDir : Bool
deriving DecidableEq, Repr

/-- A call of the client, or of the policy that closes a file. -/
inductive Call
  | remove (target : String)
  | createFile (target : String)
  | copy (target : String) (body : Upload)
  | close (target : String)
  | open_ (target : String)
  | stat (target : String)
  | readDir (dir : String)
  | now
  | err
  | retried
  | exhausted
  | draw
  | wait (delay : Duration)

/-- What a call returns. `copy` gives the number of bytes written, and `open_` what can be read. -/
def Call.Result : Call → Type
  | .remove _ => Except Err Unit
  | .createFile _ => Except Err Unit
  | .copy .. => Except Err Int
  | .close _ => Option Err
  | .open_ _ => Except Err (Bytes × Info)
  | .stat _ => Except Err Info
  | .readDir _ => Except Err (List Info)
  | .now => Instant
  | .err => Option Err
  | .retried => Unit
  | .exhausted => Unit
  | .draw => Nat
  | .wait _ => Option Err

/-- The code of the store. -/
abbrev Code := Prog Call Call.Result

/-- The context, metrics and timer of `closeWithRetry`. -/
def retrier : Retrier Call Call.Result Err where
  err := .ask Call.err
  retried := .ask Call.retried
  exhausted := .ask Call.exhausted
  draw := .ask Call.draw
  wait delay := .ask (Call.wait delay)

/-- The policy of `closeWithRetry`. -/
def closePolicy : Policy := ⟨8, 50 * Duration.millisecond, 4 * Duration.second⟩

/-- `w.Close`, as the policy calls it. -/
def close (target : String) (_ : Unit) : Code (Option Err × Unit) := do
  let err ← (.ask (Call.close target) : Code (Option Err))
  return (err, ())

/-- `closeWithRetry`. -/
def closeWithRetry (target : String) : Code (Option Err × Unit) :=
  closePolicy.do_ retrier (fun e => e = .replicating) (close target) ()

/-- `full`. -/
def full (dir name : String) : String := pathJoin dir (pathBase name)

/-- `Put` from the end of its copy on. -/
def putClose (name target : String) (written : Int) : Code (Except Err File) := do
  match ← closeWithRetry target with
  | (some e, _) => return .error e
  | (none, _) =>
    let now ← (.ask Call.now : Code Instant)
    return .ok ⟨pathBase name, target, written, now⟩

/-- `Put` from the created file on; the first `Close` after a failed copy is not looked at. -/
def putCopy (name target : String) (body : Upload) : Code (Except Err File) := do
  match ← (.ask (Call.copy target body) : Code (Except Err Int)) with
  | .error e => do
    let _ ← (.ask (Call.close target) : Code (Option Err))
    return .error e
  | .ok written => putClose name target written

/-- `Put`. -/
def put (dir name : String) (body : Upload) : Code (Except Err File) := do
  let target := full dir name
  let _ ← (.ask (Call.remove target) : Code (Except Err Unit))
  match ← (.ask (Call.createFile target) : Code (Except Err Unit)) with
  | .error e => return .error e
  | .ok () => putCopy name target body

/-- `Seek` from the start, and `LimitReader`: what is left to read of a file. -/
def readFrom (content : Bytes) (offset length : Int) : Except Err Bytes :=
  if offset > content.length then .error .client
  else
    let rest := content.drop offset.toNat
    .ok (if length > 0 then rest.take length.toNat else rest)

/-- `Get`: the size is that of the whole file. -/
def get (dir name : String) (offset length : Int) : Code (Except Err (Bytes × File)) := do
  let target := full dir name
  match ← (.ask (Call.open_ target) : Code (Except Err (Bytes × Info))) with
  | .error e => return .error e
  | .ok (content, info) =>
    match readFrom content offset length with
    | .error e => return .error e
    | .ok body => return .ok (body, ⟨pathBase name, target, info.size, info.modTime⟩)

/-- `List`. -/
def list (dir : String) : Code (Except Err (List File)) := do
  match ← (.ask (Call.readDir dir) : Code (Except Err (List Info))) with
  | .error e => return .error e
  | .ok entries =>
    return .ok ((entries.filter fun e => !e.isDir).map fun e =>
      ⟨e.name, pathJoin dir e.name, e.size, e.modTime⟩)

/-- `Stat`. -/
def stat (dir name : String) : Code (Except Err File) := do
  match ← (.ask (Call.stat (full dir name)) : Code (Except Err Info)) with
  | .error e => return .error e
  | .ok info => return .ok ⟨info.name, full dir name, info.size, info.modTime⟩

end OtusApp.Hdfsstore
