import OtusApp.Cstore.Store
import OtusApp.Handlers.Messages
import OtusApp.Hdfsstore.Store
import OtusApp.Search.Index

/-!
# The HTTP front end for files, events and search

The handlers of `storage.go`, as programs over the stores behind them. An answer in JSON is given as
the value that is encoded. The query and the path of a request are given as the handlers read them,
and so is whether its body can be read to the end.
-/

namespace OtusApp.Handlers.Files

open Messaging Go Program
open Blobstore (Tags)

/-- What an app is configured with: which stores there are, and what `json` and `strings` do. -/
structure Config where
  blobs : Bool
  files : Bool
  events : Bool
  search : Bool
  searcher : Bool
  bucket : String
  dir : String
  tags : Bytes → Option Tags
  lower : String → String

/-- A request, as these handlers read it. -/
structure Params where
  request : Request
  query : String → String
  pathValue : String → String
  contentLength : Int
  complete : Bool

/-- A call on what lies behind these handlers. -/
inductive Effect
  | s3 (call : Blobstore.Call)
  | hdfs (call : Hdfsstore.Call)
  | searchMessages (query : String) (limit : Int)
  | searchFiles (tagKey tagValue backend : String) (limit : Int)
  | indexFile (doc : Search.FileDoc)
  | recent (day : String) (limit : Int)
  | byID (id : Int)
  | eventRows
  | searchTable (query : String) (limit : Int)
  | now

/-- What a call returns; of an error that is only reported nothing is kept. -/
def Effect.Result : Effect → Type
  | .s3 call => call.Result
  | .hdfs call => call.Result
  | .searchMessages .. => Option Search.Result
  | .searchFiles .. => Option Search.Result
  | .indexFile _ => Option Unit
  | .recent .. => Option (List Cstore.EventRow)
  | .byID _ => Option Cstore.EventRow
  | .eventRows => Option (List Cstore.EventRow)
  | .searchTable .. => Option (List Message)
  | .now => Instant

/-- The code of these handlers. -/
abbrev Handler := Prog Effect Effect.Result

/-- The values these handlers encode. The times between two readings of the clock are in
milliseconds. -/
inductive Payload
  | error (text : String)
  | foundByIndex (query : String) (result : Search.Result) (elapsedMS : Int)
  | foundByScan (query : String) (found : List Cstore.EventRow) (scanned : Nat) (elapsedMS : Int)
  | foundByTable (query : String) (found : List Message) (elapsedMS : Int)
  | events (found : List Cstore.EventRow)
  | event (found : Cstore.EventRow)
  | uploadedFile (file : Hdfsstore.File) (tags : Tags)
  | uploadedObject (object : Blobstore.Object)
  | indexedFiles (result : Search.Result) (elapsedMS : Int)
  | hdfsFiles (files : List Hdfsstore.File) (elapsedMS : Int)
  | s3Files (bucket : String) (objects : List Blobstore.Object) (elapsedMS : Int)
  | versions (key : String) (objects : List Blobstore.Object)
  | tags (key : String) (tags : Tags)

/-- The body of an answer. -/
inductive Body
  | json (payload : Payload)
  | stream (bytes : Bytes)

/-- An answer. -/
structure Reply where
  status : Nat
  header : Header
  body : Body

/-- `writeJSON`. -/
def writeJSON (status : Nat) (payload : Payload) : Reply := ⟨status, jsonHeader, .json payload⟩

/-- `writeJSON` of an error text. -/
def writeError (status : Nat) (text : String) : Reply := writeJSON status (.error text)

def s3 {α : Type} (code : Blobstore.Code α) : Handler α := code.lift Effect.s3 fun _ r => r

def hdfs {α : Type} (code : Hdfsstore.Code α) : Handler α := code.lift Effect.hdfs fun _ r => r

/-- `time.Now`. -/
def now : Handler Instant := .ask Effect.now

/-- `time.Since(start).Milliseconds()`. -/
def elapsedMS (start : Instant) : Handler Int := do
  let stop ← now
  return Duration.milliseconds (stop - start)

/-! ## Parameters -/

/-- The stores for files. -/
inductive Backend
  | s3
  | hdfs
deriving DecidableEq, Repr

def Backend.name : Backend → String
  | .s3 => "s3"
  | .hdfs => "hdfs"

/-- `backendParam`. -/
def backendParam (r : Params) : Backend := if r.query "backend" = "hdfs" then .hdfs else .s3

/-- `contentLength`. -/
def contentLength (r : Params) : Int := if r.contentLength > 0 then r.contentLength else -1

/-- `intParam`. -/
def intParam (r : Params) (name : String) (fallback max : Int) : Int :=
  match parseInt (r.query name) with
  | none => fallback
  | some n => if n ≤ 0 then fallback else if n > max then max else n

/-- An assignment to a map. -/
def assign (tags : Tags) (key value : String) : Tags :=
  tags.filter (fun t => t.1 ≠ key) ++ [(key, value)]

/-- The loop of `parseTags`. -/
def parsePairs : Tags → List String → Tags
  | tags, [] => tags
  | tags, pair :: rest =>
    match cut pair '=' with
    | (_, none) => parsePairs tags rest
    | (k, some v) =>
      if trimSpace k ≠ "" then parsePairs (assign tags (trimSpace k) (trimSpace v)) rest
      else parsePairs tags rest

/-- `parseTags`; no tags are a `nil` map. -/
def parseTags (raw : String) : Tags :=
  if trimSpace raw = "" then [] else parsePairs [] (split raw ',')

/-- `splitTag`. -/
def splitTag (raw : String) : String × String :=
  if trimSpace raw = "" then ("", "")
  else
    match cut (trimSpace raw) '=' with
    | (k, v) => (trimSpace k, trimSpace (v.getD ""))

/-- What `parseRange` returns. -/
structure ByteRange where
  offset : Int
  length : Int
  ok : Bool
deriving DecidableEq, Repr

/-- `parseRange` from its start on. -/
def parseEnd (start : Int) (endRaw : String) : ByteRange :=
  if trimSpace endRaw = "" then ⟨start, 0, true⟩
  else
    match parseInt (trimSpace endRaw) with
    | none => ⟨start, 0, true⟩
    | some end_ =>
      if end_ < start then ⟨start, 0, true⟩ else ⟨start, wrap64 (end_ - start + 1), true⟩

/-- `parseRange`. -/
def parseRange (header : String) : ByteRange :=
  match cutPrefix (trimSpace header) "bytes=" with
  | none => ⟨0, 0, false⟩
  | some raw =>
    let (startRaw, endRaw) := cut raw '-'
    match parseInt (trimSpace startRaw) with
    | none => ⟨0, 0, false⟩
    | some start => if start < 0 then ⟨0, 0, false⟩ else parseEnd start (endRaw.getD "")

example : parseRange "bytes=2-4" = ⟨2, 3, true⟩ ∧ parseRange "bytes=7-" = ⟨7, 0, true⟩ ∧
    parseRange "bytes=-5" = ⟨0, 0, false⟩ ∧ parseRange "items=1-2" = ⟨0, 0, false⟩ ∧
    parseRange "bytes=0-9223372036854775807" = ⟨0, -9223372036854775808, true⟩ := by
  decide

/-! ## Search and events -/

/-- `searchMessages` through Elasticsearch. -/
def searchIndex (cfg : Config) (query : String) (limit : Int) (start : Instant) : Handler Reply :=
  if cfg.search then do
    match ← (.ask (Effect.searchMessages query limit) : Handler (Option Search.Result)) with
    | none => return writeError 500 "поиск не удался"
    | some res => return writeJSON 200 (.foundByIndex query res (← elapsedMS start))
  else return writeError 503 "поиск не настроен"

/-- `searchMessages` through Cassandra. -/
def searchScan (cfg : Config) (query : String) (limit : Int) (start : Instant) : Handler Reply :=
  if cfg.events then do
    match ← (.ask Effect.eventRows : Handler (Option (List Cstore.EventRow))) with
    | none => return writeError 500 "поиск не удался"
    | some rows =>
      let (found, scanned) := Cstore.scan cfg.lower query limit rows
      return writeJSON 200 (.foundByScan query found scanned (← elapsedMS start))
  else return writeError 503 "лента событий не настроена"

/-- `searchMessages` through PostgreSQL. -/
def searchTable (cfg : Config) (query : String) (limit : Int) (start : Instant) : Handler Reply :=
  if cfg.searcher then do
    match ← (.ask (Effect.searchTable query limit) : Handler (Option (List Message))) with
    | none => return writeError 500 "поиск не удался"
    | some msgs => return writeJSON 200 (.foundByTable query msgs (← elapsedMS start))
  else return writeError 503 "поиск по БД не поддерживается"

/-- `searchMessages`. -/
def searchMessages (cfg : Config) (r : Params) : Handler Reply :=
  let query := trimSpace (r.query "q")
  if query = "" then return writeError 400 "параметр q обязателен"
  else do
    let limit := intParam r "limit" 10 1000
    let engine := if r.query "engine" = "" then "elasticsearch" else r.query "engine"
    let start ← now
    if engine = "elasticsearch" ∨ engine = "es" then searchIndex cfg query limit start
    else if engine = "cassandra" then searchScan cfg query limit start
    else if engine = "postgres" then searchTable cfg query limit start
    else return writeError 400 "неизвестный движок поиска"

/-- The day of `Recent`: today, if none is given. -/
def recentDay (day : String) : Handler String :=
  if day = "" then do
    let t ← now
    return Cstore.day (t / 1000)
  else return day

/-- `listEvents`. -/
def listEvents (cfg : Config) (r : Params) : Handler Reply :=
  if cfg.events then do
    let day ← recentDay (r.query "day")
    match ← (.ask (Effect.recent day (intParam r "limit" 20 1000)) :
      Handler (Option (List Cstore.EventRow))) with
    | none => return writeError 500 "не удалось прочитать ленту событий"
    | some events => return writeJSON 200 (.events events)
  else return writeError 503 "лента событий не настроена"

/-- `getEvent`. -/
def getEvent (cfg : Config) (r : Params) : Handler Reply :=
  if cfg.events then
    match parseInt (r.pathValue "id") with
    | none => return writeError 400 "некорректный идентификатор"
    | some id => do
      match ← (.ask (Effect.byID id) : Handler (Option Cstore.EventRow)) with
      | none => return writeError 404 "событие не найдено"
      | some ev => return writeJSON 200 (.event ev)
  else return writeError 503 "лента событий не настроена"

/-! ## Files -/

/-- `maxUploadSize`. -/
def maxUploadSize : Nat := 2 ^ 31

/-- `indexFile`: an error is not looked at. -/
def indexFile (cfg : Config) (doc : Search.FileDoc) : Handler Unit :=
  if cfg.search then do
    let _ ← (.ask (Effect.indexFile doc) : Handler (Option Unit))
    return
  else return

/-- `uploadFile` into HDFS. -/
def uploadHdfs (cfg : Config) (name : String) (tags : Tags) (body : Upload) : Handler Reply :=
  if cfg.files then do
    match ← hdfs (Hdfsstore.put cfg.dir name body) with
    | .error _ => return writeError 502 "не удалось записать файл"
    | .ok file =>
      let t ← now
      indexFile cfg ⟨file.name, "hdfs", file.size, "", tags, t⟩
      return writeJSON 201 (.uploadedFile file tags)
  else return writeError 503 "HDFS не настроен"

/-- The content type of an upload. -/
def contentType (r : Params) : String :=
  if r.request.header.get "Content-Type" = "" then "application/octet-stream"
  else r.request.header.get "Content-Type"

/-- `uploadFile` into S3. -/
def uploadS3 (cfg : Config) (r : Params) (name : String) (tags : Tags) (body : Upload) :
    Handler Reply :=
  if cfg.blobs then do
    match ← s3 (Blobstore.put name body (contentLength r) (contentType r) tags) with
    | .error _ => return writeError 502 "не удалось записать объект"
    | .ok obj =>
      let t ← now
      indexFile cfg ⟨obj.key, "s3", obj.size, obj.versionID, tags, t⟩
      return writeJSON 201 (.uploadedObject obj)
  else return writeError 503 "S3 не настроен"

/-- The name of an uploaded file, if there is one. -/
def uploadName (r : Params) : Option String :=
  let name := pathBase (trimSpace (r.query "name"))
  if name = "" ∨ name = "." ∨ name = "/" then none else some name

/-- `uploadFile`. -/
def uploadFile (cfg : Config) (r : Params) : Handler Reply :=
  match uploadName r with
  | none => return writeError 400 "параметр name обязателен"
  | some name =>
    let tags := parseTags (r.query "tags")
    let body := maxBytesReader maxUploadSize ⟨r.request.body, r.complete⟩
    match backendParam r with
    | .hdfs => uploadHdfs cfg name tags body
    | .s3 => uploadS3 cfg r name tags body

/-- The key in the path of a request. -/
def fileKey (r : Params) : String := pathBase (r.pathValue "key")

/-- The answer of a file: `total` is zero where the size of the file is not known. The body is what
the handler sets out to send; `io.Copy` may break off after the status, and then only part of it
arrives, which the handler can no more than log. -/
def serveFile (backend : Backend) (range : ByteRange) (total size : Int) (header : Header)
    (body : Bytes) : Reply :=
  let header :=
    header |>.set "Content-Type" "application/octet-stream" |>.set "X-Backend" backend.name
  let ranged :=
    if range.ok then
      let total := if total = 0 then wrap64 (range.offset + size) else total
      let last := wrap64 (wrap64 (range.offset + size) - 1)
      let contentRange :=
        "bytes " ++ formatInt range.offset 10 ++ "-" ++ formatInt last 10 ++ "/" ++
        formatInt total 10
      header |>.set "Content-Range" contentRange |>.set "Accept-Ranges" "bytes"
    else header
  let sized := if size > 0 then ranged.set "Content-Length" (formatInt size 10) else ranged
  ⟨if range.ok then 206 else 200, sized, .stream body⟩

/-- `downloadFile` from HDFS. -/
def downloadHdfs (cfg : Config) (key : String) (range : ByteRange) : Handler Reply :=
  if cfg.files then do
    let stat ← hdfs (Hdfsstore.stat cfg.dir key)
    let total := match stat with
      | .ok file => file.size
      | .error _ => 0
    match ← hdfs (Hdfsstore.get cfg.dir key range.offset range.length) with
    | .error _ => return writeError 404 "файл не найден"
    | .ok (body, file) => return serveFile .hdfs range total file.size Header.empty body
  else return writeError 503 "HDFS не настроен"

/-- The header of an object's answer. -/
def versionHeader (obj : Blobstore.Object) : Header :=
  if obj.versionID = "" then Header.empty else Header.empty.set "X-Version-Id" obj.versionID

/-- `downloadFile` from S3. -/
def downloadS3 (cfg : Config) (key version : String) (range : ByteRange) : Handler Reply :=
  if cfg.blobs then do
    let stat ← s3 (Blobstore.stat key version)
    let total := match stat with
      | .ok obj => obj.size
      | .error _ => 0
    match ← s3 (Blobstore.get key version range.offset range.length) with
    | .error _ => return writeError 404 "файл не найден"
    | .ok (body, obj) => return serveFile .s3 range total obj.size (versionHeader obj) body
  else return writeError 503 "S3 не настроен"

/-- `downloadFile`. -/
def downloadFile (cfg : Config) (r : Params) : Handler Reply :=
  let range := parseRange (r.request.header.get "Range")
  match backendParam r with
  | .hdfs => downloadHdfs cfg (fileKey r) range
  | .s3 => downloadS3 cfg (fileKey r) (r.query "version") range

/-- `listFiles` from the index. -/
def listIndex (cfg : Config) (r : Params) (tag : String × String) (start : Instant) :
    Handler Reply :=
  if cfg.search then do
    let limit := intParam r "limit" 50 1000
    match ← (.ask (Effect.searchFiles tag.1 tag.2 (backendParam r).name limit) :
      Handler (Option Search.Result)) with
    | none => return writeError 500 "не удалось найти файлы"
    | some res => return writeJSON 200 (.indexedFiles res (← elapsedMS start))
  else return writeError 503 "поиск не настроен"

/-- `listFiles` from HDFS. -/
def listHdfs (cfg : Config) (start : Instant) : Handler Reply :=
  if cfg.files then do
    match ← hdfs (Hdfsstore.list cfg.dir) with
    | .error _ => return writeError 502 "не удалось получить список файлов"
    | .ok files => return writeJSON 200 (.hdfsFiles files (← elapsedMS start))
  else return writeError 503 "HDFS не настроен"

/-- `listFiles` from S3. -/
def listS3 (cfg : Config) (r : Params) (tag : String × String) (start : Instant) : Handler Reply :=
  if cfg.blobs then do
    let lead := r.query "prefix"
    let found ← s3
      (if tag.1 ≠ "" then Blobstore.findByTag tag.1 tag.2 lead else Blobstore.list lead)
    match found with
    | .error _ => return writeError 502 "не удалось получить список объектов"
    | .ok objects => return writeJSON 200 (.s3Files cfg.bucket objects (← elapsedMS start))
  else return writeError 503 "S3 не настроен"

/-- `listFiles`. -/
def listFiles (cfg : Config) (r : Params) : Handler Reply := do
  let tag := splitTag (r.query "tag")
  let source := if r.query "source" ≠ "" then r.query "source"
    else if tag.1 ≠ "" ∧ cfg.search then "es" else (backendParam r).name
  let start ← now
  if source = "es" then listIndex cfg r tag start
  else if source = "hdfs" then listHdfs cfg start
  else listS3 cfg r tag start

/-- `listVersions`. -/
def listVersions (cfg : Config) (r : Params) : Handler Reply :=
  if cfg.blobs then do
    match ← s3 (Blobstore.versions (fileKey r)) with
    | .error _ => return writeError 502 "не удалось получить версии объекта"
    | .ok objects => return writeJSON 200 (.versions (fileKey r) objects)
  else return writeError 503 "S3 не настроен"

/-- `updateTags` from its tags on: the document has the size and the version that `Stat` gives. -/
def indexTags (cfg : Config) (key : String) (tags : Tags) : Handler Reply := do
  match ← s3 (Blobstore.stat key "") with
  | .error _ => return writeJSON 200 (.tags key tags)
  | .ok obj =>
    let t ← now
    indexFile cfg ⟨key, "s3", obj.size, obj.versionID, tags, t⟩
    return writeJSON 200 (.tags key tags)

/-- `updateTags`. -/
def updateTags (cfg : Config) (r : Params) : Handler Reply :=
  if cfg.blobs then
    match cfg.tags r.request.body with
    | none => return writeError 400 "некорректное тело запроса"
    | some tags => do
      match ← s3 (Blobstore.setTags (fileKey r) tags) with
      | .error _ => return writeError 502 "не удалось обновить теги"
      | .ok () => indexTags cfg (fileKey r) tags
  else return writeError 503 "S3 не настроен"

end OtusApp.Handlers.Files
