import OtusApp.Go.Duration
import OtusApp.Go.Http
import OtusApp.Go.Int64
import OtusApp.Go.Strconv
import OtusApp.Lib.Program

/-!
# The object store

`internal/blobstore` over the S3 client: its methods are programs whose calls are the client's. The
metrics are left out. Of an object's tags a map is kept as its entries, one for each key.
-/

namespace OtusApp.Blobstore

open Go Program

/-- `map[string]string`. -/
abbrev Tags := List (String × String)

/-- What the client reports of an object. -/
structure Info where
  key : String
  size : Int
  etag : String
  versionID : String
  contentType : String
  lastModified : Instant
  isLatest : Bool
deriving DecidableEq, Repr

/-- `Object`. -/
structure Object where
  key : String
  size : Int
  etag : String
  versionID : String
  contentType : String
  lastModified : Instant
  tags : Tags
  isLatest : Bool
  parts : Int
deriving DecidableEq, Repr

/-- The forms of the `Range` header that the client sends. -/
inductive Range
  | suffix (n : Int)
  | from_ (start : Int)
  | slice (start end_ : Int)
deriving DecidableEq, Repr

/-- An error of the client. -/
inductive Err
  | client
  | invalidArgument
deriving DecidableEq, Repr

/-- A call of the client. -/
inductive Call
  | putObject (key : String) (body : Upload) (size : Int) (contentType : String) (tags : Tags)
  | getObject (key version : String) (range : Option Range)
  | statObject (key version : String)
  | listObjects (lead : String) (withVersions : Bool)
  | getObjectTagging (key version : String)
  | putObjectTagging (key : String) (tags : Tags)

/-- What a call returns. -/
def Call.Result : Call → Type
  | .putObject .. => Except Err Info
  | .getObject .. => Except Err (Bytes × Info)
  | .statObject .. => Except Err Info
  | .listObjects .. => Except Err (List Info)
  | .getObjectTagging .. => Except Err Tags
  | .putObjectTagging .. => Except Err Unit

/-- The code of the store. -/
abbrev Code := Prog Call Call.Result

/-- `partsFromETag`: the number after the last dash, of an entity tag that does not begin with
it. -/
def partsFromETag (etag : String) : Int :=
  let tail := etag.toList.reverse.takeWhile (· ≠ '-')
  if tail.length + 1 < etag.length then
    let digits := (tail.dropWhile (· = '"')).reverse.dropWhile (· = '"')
    (parseInt (String.ofList digits)).getD 0
  else 0

/-- `Put`. -/
def put (key : String) (body : Upload) (size : Int) (contentType : String) (tags : Tags) :
    Code (Except Err Object) := do
  match ← (.ask (Call.putObject key body size contentType tags) : Code (Except Err Info)) with
  | .error e => return .error e
  | .ok info =>
    return .ok ⟨info.key, info.size, info.etag, info.versionID, contentType, 0, tags, false,
      partsFromETag info.etag⟩

/-- `rangeEnd`. -/
def rangeEnd (offset length : Int) : Int :=
  if length ≤ 0 then 0 else wrap64 (wrap64 (offset + length) - 1)

/-- `GetObjectOptions.SetRange` of the client. -/
def setRange (start end_ : Int) : Except Err Range :=
  if start = 0 ∧ end_ < 0 then .ok (.suffix (-end_))
  else if 0 < start ∧ end_ = 0 then .ok (.from_ start)
  else if 0 ≤ start ∧ start ≤ end_ then .ok (.slice start end_)
  else .error .invalidArgument

/-- The range of `Get`, if it sets one. -/
def getRange (offset length : Int) : Except Err (Option Range) :=
  if offset > 0 ∨ length > 0 then (setRange offset (rangeEnd offset length)).map some else .ok none

/-- `Get`. -/
def get (key version : String) (offset length : Int) : Code (Except Err (Bytes × Object)) :=
  match getRange offset length with
  | .error e => return .error e
  | .ok range => do
    match ← (.ask (Call.getObject key version range) : Code (Except Err (Bytes × Info))) with
    | .error e => return .error e
    | .ok (body, stat) =>
      return .ok (body,
        ⟨stat.key, stat.size, stat.etag, stat.versionID, stat.contentType, stat.lastModified,
          [], false, 0⟩)

/-- `List`. -/
def list (lead : String) : Code (Except Err (List Object)) := do
  match ← (.ask (Call.listObjects lead false) : Code (Except Err (List Info))) with
  | .error e => return .error e
  | .ok infos =>
    return .ok (infos.map fun info =>
      ⟨info.key, info.size, info.etag, info.versionID, "", info.lastModified, [], false, 0⟩)

/-- `Versions`. -/
def versions (key : String) : Code (Except Err (List Object)) := do
  match ← (.ask (Call.listObjects key true) : Code (Except Err (List Info))) with
  | .error e => return .error e
  | .ok infos =>
    return .ok ((infos.filter fun info => info.key = key).map fun info =>
      ⟨info.key, info.size, info.etag, info.versionID, "", info.lastModified, [], info.isLatest, 0⟩)

/-- `Tags`. -/
def getTags (key version : String) : Code (Except Err Tags) :=
  .ask (Call.getObjectTagging key version)

/-- `SetTags`; tags that `NewTags` refuses are an error of the client too. -/
def setTags (key : String) (tags : Tags) : Code (Except Err Unit) :=
  .ask (Call.putObjectTagging key tags)

/-- `Stat`. -/
def stat (key version : String) : Code (Except Err Object) := do
  match ← (.ask (Call.statObject key version) : Code (Except Err Info)) with
  | .error e => return .error e
  | .ok info =>
    return .ok ⟨info.key, info.size, info.etag, info.versionID, info.contentType,
      info.lastModified, [],
      false, partsFromETag info.etag⟩

/-- Whether tags contain the one that is looked for. -/
def tagged (tags : Tags) (key value : String) : Bool :=
  match tags.lookup key with
  | none => false
  | some v => value = "" || v = value

/-- The loop of `FindByTag`, with the objects found so far. -/
def findLoop (key value : String) : List Object → List Object → Code (List Object)
  | found, [] => return found
  | found, obj :: rest => do
    match ← getTags obj.key "" with
    | .error _ => findLoop key value found rest
    | .ok t =>
      if tagged t key value then findLoop key value (found ++ [{ obj with tags := t }]) rest
      else findLoop key value found rest

/-- `FindByTag`. -/
def findByTag (key value lead : String) : Code (Except Err (List Object)) := do
  match ← list lead with
  | .error e => return .error e
  | .ok all => return .ok (← findLoop key value [] all)

end OtusApp.Blobstore
