import OtusApp.Handlers.Storage

/-!
# The stores behind the file handlers

An object store that keeps the versions of its objects, a file system, and the index of files, under
any number of requests at once. A call takes effect and answers, fails, or takes effect and its
answer is lost. What a search finds, and what the tables of events and messages hold, is left open.

A ranged read of an object gives the bytes of the range and their number; one that begins at or past
the end of the object fails. Of a file in HDFS that is not closed a reader gets the beginning.
`written` is kept besides: the keys whose objects or tags were written.
-/

namespace OtusApp.Files

open Go Messaging Program Transition Handlers.Files
open Blobstore (Tags)

/-- A version of an object. -/
structure Version where
  key : String
  id : String
  body : Bytes
  contentType : String
  etag : String
  tags : Tags
  modified : Instant
deriving DecidableEq, Repr

/-- A file in HDFS: what a reader gets, and all that its writer has handed over. -/
structure HdfsFile where
  path : String
  content : Bytes
  written : Bytes
  modified : Instant
deriving DecidableEq, Repr

/-- What lies behind the handlers; the versions are those of all objects, newest first. -/
structure Env where
  versions : List Version
  hdfs : List HdfsFile
  index : Search.Index Search.FileDoc
  clock : Instant
  written : List String

/-- What becomes of a call. -/
inductive Fate
  | ok
  | failed
  | lost
deriving DecidableEq, Repr

/-- What a call leaves open. -/
structure Choice where
  fate : Fate
  version : String
  etag : String
  copied : Nat
  visible : Nat
  closeErr : Hdfsstore.Err
  source : Nat
  result : Search.Result
  events : List Cstore.EventRow
  event : Cstore.EventRow
  messages : List Message

/-! ## The object store -/

/-- The latest version of an object. -/
def latest (versions : List Version) (key : String) : Option Version :=
  versions.find? fun v => v.key = key

/-- The version a call names; none means the latest. -/
def select (versions : List Version) (key version : String) : Option Version :=
  if version = "" then latest versions key else versions.find? fun v => v.key = key ∧ v.id = version

/-- The bytes a range selects. -/
def rangeBytes (body : Bytes) : Option Blobstore.Range → Option Bytes
  | none => some body
  | some (.from_ start) => if start < body.length then some (body.drop start.toNat) else none
  | some (.slice start end_) =>
    if start < body.length then
      some ((body.drop start.toNat).take (end_ - start + 1).toNat)
    else none
  | some (.suffix n) => if body = [] then none else some (body.drop (body.length - n.toNat))

/-- What the client says of a version. -/
def Version.info (v : Version) (isLatest : Bool) : Blobstore.Info :=
  ⟨v.key, v.body.length, v.etag, v.id, v.contentType, v.modified, isLatest⟩

/-- The versions after an upload. A bucket without versioning gives no identifier, and replaces the
version that has none. -/
def upload (versions : List Version) (v : Version) : List Version :=
  if v.id = "" then v :: versions.filter fun old => ¬(old.key = v.key ∧ old.id = "")
  else v :: versions

/-- The latest version gets other tags. -/
def retag (key : String) (tags : Tags) : List Version → List Version
  | [] => []
  | v :: rest => if v.key = key then { v with tags := tags } :: rest else v :: retag key tags rest

/-- An upload takes effect. -/
def putObject (s : Env) (v : Version) : Env :=
  { s with versions := upload s.versions v, written := v.key :: s.written }

/-- Other tags take effect. -/
def putTags (s : Env) (key : String) (tags : Tags) : Env :=
  { s with versions := retag key tags s.versions, written := key :: s.written }

/-- The objects, or their versions, whose keys begin with `lead`, in the order of their keys. -/
def listing (versions : List Version) (lead : String) (withVersions : Bool) : List Blobstore.Info :=
  let current := Upsert.table Version.key versions
  let listed := (if withVersions then versions else current).filter fun v =>
    lead.toList.isPrefixOf v.key.toList
  (listed.mergeSort fun a b => decide (a.key ≤ b.key)).map fun v => v.info (v ∈ current)

/-- How the object store answers. -/
def respondS3 (s : Env) : (call : Blobstore.Call) → Choice → Option (call.Result × Env)
  | .putObject key body _ contentType tags, c =>
    let v : Version := ⟨key, c.version, body.bytes, contentType, c.etag, tags, s.clock⟩
    match c.fate with
    | .ok => if body.complete then some (.ok (v.info true), putObject s v) else none
    | .failed => some (.error .client, s)
    | .lost => if body.complete then some (.error .client, putObject s v) else none
  | .getObject key version range, c =>
    match c.fate, select s.versions key version with
    | .ok, some v =>
      match rangeBytes v.body range with
      | some bytes => some (.ok (bytes, { v.info true with size := bytes.length }), s)
      | none => some (.error .client, s)
    | _, _ => some (.error .client, s)
  | .statObject key version, c =>
    match c.fate, select s.versions key version with
    | .ok, some v => some (.ok (v.info true), s)
    | _, _ => some (.error .client, s)
  | .listObjects lead withVersions, c =>
    match c.fate with
    | .ok => some (.ok (listing s.versions lead withVersions), s)
    | _ => some (.error .client, s)
  | .getObjectTagging key version, c =>
    match c.fate, select s.versions key version with
    | .ok, some v => some (.ok v.tags, s)
    | _, _ => some (.error .client, s)
  | .putObjectTagging key tags, c =>
    match c.fate, latest s.versions key with
    | .ok, some _ => some (.ok (), putTags s key tags)
    | .lost, some _ => some (.error .client, putTags s key tags)
    | _, _ => some (.error .client, s)

/-! ## The file system -/

/-- The file at a path. -/
def fileAt (files : List HdfsFile) (path : String) : Option HdfsFile :=
  files.find? fun f => f.path = path

/-- The file system without the file at a path. -/
def removeAt (files : List HdfsFile) (path : String) : List HdfsFile :=
  files.filter fun f => f.path ≠ path

/-- The file at a path gets another content. -/
def writeAt (s : Env) (path : String) (content written : Bytes) : Env :=
  { s with hdfs := ⟨path, content, written, s.clock⟩ :: removeAt s.hdfs path }

/-- What the client says of a file. -/
def HdfsFile.info (f : HdfsFile) : Hdfsstore.Info :=
  ⟨pathBase f.path, f.content.length, f.modified, false⟩

/-- How the file system, the context and the timer answer. A copy that fails has handed over some of
the bytes that could be read. Until the file is closed its reader gets some of the bytes handed
over; a file that was removed meanwhile takes no more of them. -/
def respondHdfs (s : Env) : (call : Hdfsstore.Call) → Choice → Option (call.Result × Env)
  | .remove target, c =>
    match c.fate with
    | .ok => some (.ok (), { s with hdfs := removeAt s.hdfs target })
    | .failed => some (.error .client, s)
    | .lost => some (.error .client, { s with hdfs := removeAt s.hdfs target })
  | .createFile target, c =>
    match c.fate, fileAt s.hdfs target with
    | .ok, none => some (.ok (), writeAt s target [] [])
    | .lost, none => some (.error .client, writeAt s target [] [])
    | _, _ => some (.error .client, s)
  | .copy target body, c =>
    match c.fate, fileAt s.hdfs target with
    | _, none => some (.error .client, s)
    | .ok, some _ =>
      if body.complete then
        some (.ok body.bytes.length, writeAt s target (body.bytes.take c.visible) body.bytes)
      else none
    | _, some _ =>
      let copied := body.bytes.take c.copied
      some (.error .client, writeAt s target (copied.take c.visible) copied)
  | .close target, c =>
    match c.fate, fileAt s.hdfs target with
    | .ok, some f => some (none, writeAt s target f.written f.written)
    | _, _ => some (some c.closeErr, s)
  | .open_ target, c =>
    match c.fate, fileAt s.hdfs target with
    | .ok, some f => some (.ok (f.content, f.info), s)
    | _, _ => some (.error .client, s)
  | .stat target, c =>
    match c.fate, fileAt s.hdfs target with
    | .ok, some f => some (.ok f.info, s)
    | _, _ => some (.error .client, s)
  | .readDir dir, c =>
    match c.fate with
    | .ok =>
      some (.ok
        ((s.hdfs.filter fun f => pathJoin dir (pathBase f.path) = f.path).map HdfsFile.info), s)
    | _ => some (.error .client, s)
  | .now, _ => some (s.clock, s)
  | .err, c =>
    match c.fate with
    | .ok => some (none, s)
    | _ => some (some .context, s)
  | .retried, _ => some ((), s)
  | .exhausted, _ => some ((), s)
  | .draw, c => some (c.source, s)
  | .wait _, c =>
    match c.fate with
    | .ok => some (none, s)
    | _ => some (some .context, s)

/-! ## The requests -/

/-- The routes of the handlers. -/
inductive Route
  | search
  | events
  | event
  | list
  | upload
  | download
  | versions
  | tags
deriving DecidableEq, Repr

/-- A request to one of them. -/
structure Incoming where
  route : Route
  params : Params

/-- The program of a request. -/
def serve (cfg : Config) (q : Incoming) : Handler Reply :=
  match q.route with
  | .search => searchMessages cfg q.params
  | .events => listEvents cfg q.params
  | .event => getEvent cfg q.params
  | .list => listFiles cfg q.params
  | .upload => uploadFile cfg q.params
  | .download => downloadFile cfg q.params
  | .versions => listVersions cfg q.params
  | .tags => updateTags cfg q.params

/-- An answer that a call has or that is an error. -/
def given {α : Type} (c : Choice) (s : Env) (answer : α) : Option (Option α × Env) :=
  match c.fate with
  | .ok => some (some answer, s)
  | _ => some (none, s)

/-- How a call is answered. -/
def respond (s : Env) : (e : Effect) → Choice → Option (e.Result × Env)
  | .s3 call, c => respondS3 s call c
  | .hdfs call, c => respondHdfs s call c
  | .searchMessages .., c => given c s c.result
  | .searchFiles .., c => given c s c.result
  | .indexFile doc, c =>
    match c.fate with
    | .ok => some (some (), { s with index := Search.indexFile s.index doc })
    | .failed => some (none, s)
    | .lost => some (none, { s with index := Search.indexFile s.index doc })
  | .recent .., c => given c s c.events
  | .byID _, c => given c s c.event
  | .eventRows, c => given c s c.events
  | .searchTable .., c => given c s c.messages
  | .now, _ => some (s.clock, s)

/-- The clock moves on. -/
def tick (s : Env) (elapsed : Nat) : Option Env := some { s with clock := s.clock + elapsed }

/-- The handlers over their stores. -/
def machine (cfg : Config) : Machine Incoming Effect Effect.Result Reply Env Choice Nat :=
  ⟨serve cfg, fun s _ => some s, fun s _ => respond s, tick⟩

/-- The state of the handlers. -/
abbrev State := Pool Incoming Effect Effect.Result Reply Env

end OtusApp.Files
