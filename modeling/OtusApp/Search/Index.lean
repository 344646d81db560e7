import OtusApp.Blobstore.Store
import OtusApp.Domain.Messaging
import OtusApp.Go.Strconv
import OtusApp.Lib.Upsert

/-!
# The indices in Elasticsearch

`IndexMessage` and `IndexFile`: a `PUT` under a document's identifier replaces the document that is
there. What a search finds is left to the engine.
-/

namespace OtusApp.Search

open Messaging Go

/-- The documents of an index, by their identifiers. -/
abbrev Index (D : Type) := List (String × D)

/-- `index`: the `PUT` of a document. -/
def Index.index {D : Type} (docs : Index D) (id : String) (doc : D) : Index D :=
  Upsert.put Prod.fst docs (id, doc)

/-- The document under an identifier. -/
def Index.get {D : Type} (docs : Index D) (id : String) : Option D :=
  (docs.find? fun d => d.1 = id).map Prod.snd

theorem Index.get_index_self {D : Type} (docs : Index D) (id : String) (doc : D) :
    (docs.index id doc).get id = some doc := by
  simp [Index.get, Index.index, Upsert.put]

theorem Index.get_index_ne {D : Type} (docs : Index D) {id other : String} (ne : other ≠ id)
    (doc : D) :
    (docs.index id doc).get other = docs.get other := by
  rw [Index.get, Index.index, Upsert.put, List.find?_cons_of_neg (by simpa using Ne.symm ne)]
  rw [List.find?_filter, Index.get]
  congr 2
  funext d
  by_cases same : d.1 = other
  · simp [same, ne]
  · simp [same]

/-- `Document`. -/
structure Document where
  id : Nat
  text : String
  checksum : String
  producer : String
  createdAt : Time
deriving DecidableEq, Repr

/-- The identifier of a message's document. -/
def Document.docId (doc : Document) : String := formatInt doc.id 10

/-- `IndexMessage`. -/
def indexMessage (docs : Index Document) (doc : Document) : Index Document :=
  docs.index doc.docId doc

/-- `FileDoc`. -/
structure FileDoc where
  key : String
  backend : String
  size : Int
  versionID : String
  tags : Blobstore.Tags
  updatedAt : Instant
deriving DecidableEq, Repr

/-- The identifier of a file's document. -/
def FileDoc.docId (doc : FileDoc) : String := doc.backend ++ ":" ++ doc.key

/-- `IndexFile`. -/
def indexFile (docs : Index FileDoc) (doc : FileDoc) : Index FileDoc := docs.index doc.docId doc

/-- `Result`. -/
structure Result where
  total : Int
  tookMS : Int
  messages : List Document
  files : List FileDoc
deriving DecidableEq, Repr

end OtusApp.Search
