import OtusApp.Go.Strings
import OtusApp.Lib.Protocol
import OtusApp.Lib.Registry
import Mathlib.Data.List.Infix

/-!
# The indices are created

`search.New` with `ensure`, by any number of instances that start at once, each of which then writes
documents. Elasticsearch creates an index that is asked for, with its mapping; a document that is
written where there is no index creates one too, with whatever mapping the document suggests. Any
call may fail, with its effect or without it, and what was sent once may take effect again at any
later moment: the HTTP transport repeats its requests, and a request may be late.

Kept besides: the documents that were written, and the instances one of whose calls has failed.
-/

namespace OtusApp.Search.Startup

open Go Program Transition

/-- A filter of an analyzer: its type, and the option of that type with its value. -/
structure Filter where
  name : String
  type : String
  option : String × String
deriving DecidableEq, Repr

/-- An analyzer. -/
structure Analyzer where
  name : String
  type : String
  tokenizer : String
  filter : List String
deriving DecidableEq, Repr

/-- A property of the documents, with the analyzer of a text. -/
structure Property where
  name : String
  type : String
  analyzer : Option String
deriving DecidableEq, Repr

/-- The body of `Create`: `settings`, with its `analysis`, and `mappings.properties`. -/
structure Mapping where
  numberOfShards : Nat
  numberOfReplicas : Nat
  filters : List Filter := []
  analyzers : List Analyzer := []
  properties : List Property
deriving DecidableEq, Repr

/-- `messagesMapping`. -/
def messagesMapping : Mapping where
  numberOfShards := 3
  numberOfReplicas := 1
  filters := [
    ⟨"ru_stop", "stop", ("stopwords", "_russian_")⟩,
    ⟨"ru_stemmer", "stemmer", ("language", "russian")⟩]
  analyzers := [⟨"ru", "custom", "standard", ["lowercase", "ru_stop", "ru_stemmer"]⟩]
  properties := [
    ⟨"id", "long", none⟩,
    ⟨"text", "text", some "ru"⟩,
    ⟨"checksum", "keyword", none⟩,
    ⟨"producer", "keyword", none⟩,
    ⟨"created_at", "date", none⟩]

/-- `filesMapping`. -/
def filesMapping : Mapping where
  numberOfShards := 1
  numberOfReplicas := 1
  properties := [
    ⟨"key", "keyword", none⟩,
    ⟨"backend", "keyword", none⟩,
    ⟨"size", "long", none⟩,
    ⟨"version_id", "keyword", none⟩,
    ⟨"tags", "flattened", none⟩,
    ⟨"updated_at", "date", none⟩]

/-- The names of the indices, of `ELASTIC_INDEX` and `ELASTIC_FILE_INDEX`. -/
structure Config where
  msgIndex : String
  fileIndex : String

/-- `envOr`. -/
def envOr (value fallback : String) : String :=
  if trimSpace value = "" then fallback else trimSpace value

/-- The settings of `New`. -/
def settings (index fileIndex : String) : Config :=
  ⟨envOr index "otus-messages", envOr fileIndex "otus-files"⟩

/-- What Elasticsearch answers. -/
structure Answer where
  status : Nat
  body : String
deriving DecidableEq, Repr

/-- `IsError`. -/
def Answer.isError (a : Answer) : Bool := decide (299 < a.status)

/-- A call of the client. -/
inductive Call
  | exists_ (name : String)
  | create (name : String) (mapping : Mapping)
  | index (name id : String)
deriving DecidableEq, Repr

/-- The code of an instance; a call ends with an answer, or with an error and its text. -/
abbrev Code := Prog Call fun _ => Except String Answer

/-- The characters of the first bytes. -/
def firstBytes : Nat → List Char → List Char
  | _, [] => []
  | n, c :: rest => if c.utf8Size ≤ n then c :: firstBytes (n - c.utf8Size) rest else []

/-- `readBody`. -/
def readBody (body : String) : String := trimSpace (String.ofList (firstBytes 4096 body.toList))

/-- `strings.Contains(body, "resource_already_exists_exception")`. -/
def alreadyExists (body : String) : Bool :=
  decide ("resource_already_exists_exception".toList <:+: body.toList)

/-- What `ensure` makes of the answer to `Create`. -/
def created (name : String) : Except String Answer → Option String
  | .error err => some err
  | .ok create =>
    if create.isError then
      let body := readBody create.body
      if alreadyExists body then none
      else some ("не удалось создать индекс " ++ name ++ ": " ++ body)
    else none

/-- `ensure`: its error, if there is one. -/
def ensure (name : String) (mapping : Mapping) : Code (Option String) := do
  match ← (.ask (Call.exists_ name) : Code (Except String Answer)) with
  | .error err => return some err
  | .ok res =>
    if res.status = 200 then return none
    else return created name (← (.ask (Call.create name mapping) : Code (Except String Answer)))

/-- The end of `New`, where there are addresses. -/
def new (cfg : Config) : Code (Option String) := do
  match ← ensure cfg.msgIndex messagesMapping with
  | some err => return some err
  | none => ensure cfg.fileIndex filesMapping

/-- A document that is written later on, to one of the indices. -/
inductive Doc
  | message (id : String)
  | file (id : String)
deriving DecidableEq, Repr

/-- `index`, for a message or for a file; its error goes to the caller. -/
def index (cfg : Config) : Doc → Code (Except String Answer)
  | .message id => .ask (Call.index cfg.msgIndex id)
  | .file id => .ask (Call.index cfg.fileIndex id)

/-- The documents, one after another. -/
def indexAll (cfg : Config) : List Doc → Code Unit
  | [] => return
  | doc :: rest => do
    let _ ← index cfg doc
    indexAll cfg rest

/-- An instance: it goes on without the index if `New` returns an error. -/
def instance_ (cfg : Config) (docs : List Doc) : Code (Option String) := do
  match ← new cfg with
  | some err => return some err
  | none =>
    indexAll cfg docs
    return none

/-! ## Elasticsearch -/

/-- What an index was created by. -/
inductive Origin
  | mapping (mapping : Mapping)
  | document
deriving DecidableEq, Repr

/-- The indices, the calls that were sent, the documents written, each with its index, and who has
met a failure. -/
structure Elastic where
  indices : Registry String Origin
  sent : List Call
  docs : List (String × String)
  failed : List Nat

/-- What a call does. -/
def Elastic.effect (s : Elastic) : Call → Elastic
  | .exists_ _ => s
  | .create name mapping => { s with indices := s.indices.create name (.mapping mapping) }
  | .index name id =>
    { s with indices := s.indices.create name .document, docs := (name, id) :: s.docs }

/-- What an answer may say: of an index, that it exists only if it does; of what was asked, that it
is done only if it is. -/
def admissible (s : Elastic) : Call → Bool → Except String Answer → Bool
  | _, _, .error _ => true
  | .exists_ name, _, .ok a =>
    decide ((a.status = 200 → (s.indices name).isSome) ∧ (a.status = 404 → s.indices name = none))
  | .create name _, done, .ok a =>
    if a.isError then !done && (!alreadyExists (readBody a.body) || (s.indices name).isSome)
    else done && decide (s.indices name = none)
  | .index _ _, done, .ok a => a.isError || done

/-- Whether a call has failed: it has no answer, or one that is about something else. -/
def Call.fails : Call → Except String Answer → Bool
  | _, .error _ => true
  | .exists_ _, .ok a => decide (a.status ≠ 200 ∧ a.status ≠ 404)
  | .create _ _, .ok a => a.isError && !alreadyExists (readBody a.body)
  | .index _ _, .ok a => a.isError

/-- How a call is answered, and whether it takes effect. -/
def respond (s : Elastic) (caller : Nat × List Doc) (e : Call) (c : Bool × Except String Answer) :
    Option (Except String Answer × Elastic) :=
  if admissible s e c.1 c.2 then
    let s := { s with
      sent := s.sent ++ [e]
      failed := if e.fails c.2 then caller.1 :: s.failed else s.failed }
    some (c.2, if c.1 then s.effect e else s)
  else none

/-- A call that was sent takes effect once more. -/
def again (s : Elastic) (k : Nat) : Option Elastic := (s.sent[k]?).map s.effect

/-- The instances over one Elasticsearch. -/
def machine (cfg : Config) :
    Machine (List Doc) Call (fun _ => Except String Answer) (Option String) Elastic
      (Bool × Except String Answer) Nat :=
  ⟨instance_ cfg, fun s _ => some s, respond, again⟩

/-- Nothing is there. -/
def empty : Elastic := ⟨fun _ => none, [], [], []⟩

/-- The state of the instances. -/
abbrev State := Pool (List Doc) Call (fun _ => Except String Answer) (Option String) Elastic

/-- The instances as a transition system. -/
def starting (cfg : Config) : System State (Move (List Doc) (Bool × Except String Answer) Nat) :=
  (machine cfg).system fun s => s = empty

end OtusApp.Search.Startup
