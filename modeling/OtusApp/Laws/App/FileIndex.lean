import OtusApp.Laws.App.Files
import OtusApp.Lib.Apart

/-!
# The file index

Each request that writes an object writes its document afterwards, from what the object store
answered. As long as no other request with the same key comes in between, the document is that of
the latest version when the request is done (`uploadS3_agrees`, `updateTags_agrees`); requests with
other keys do not touch either.
-/

namespace OtusApp.Files

open Go Messaging Program Machine Transition Handlers.Files
open Blobstore (Tags)

/-- The key of the object that a request writes. -/
def s3Key (q : Incoming) : Option String :=
  match q.route with
  | .upload =>
    match backendParam q.params with
    | .s3 => uploadName q.params
    | .hdfs => none
  | .tags => some (fileKey q.params)
  | _ => none

/-- The identifier of the document of an object. -/
def s3Id (key : String) : String := "s3" ++ ":" ++ key

/-- The document of an object is that of its latest version. -/
def Agrees (s : Env) (key : String) : Prop :=
  ∃ v doc, latest s.versions key = some v ∧ s.index.get (s3Id key) = some doc ∧
    doc.tags = v.tags ∧ doc.size = v.body.length ∧ doc.versionID = v.id

/-- An object that was written has its document. -/
def Indexed (key : String) (s : Env) : Prop := key ∈ s.written → Agrees s key

/-- Nothing happens to an object and its document. -/
structure Keeps (key : String) (s t : Env) : Prop where
  latest : latest t.versions key = latest s.versions key
  doc : t.index.get (s3Id key) = s.index.get (s3Id key)
  written : key ∈ t.written ↔ key ∈ s.written

theorem Keeps.refl (key : String) (s : Env) : Keeps key s s := ⟨rfl, rfl, Iff.rfl⟩

theorem Keeps.trans {key : String} {s t r : Env} (h : Keeps key s t) (h' : Keeps key t r) :
    Keeps key s r :=
  ⟨h'.latest.trans h.latest, h'.doc.trans h.doc, h'.written.trans h.written⟩

theorem Keeps.indexed {key : String} {s t : Env} (h : Keeps key s t) (indexed : Indexed key s) :
    Indexed key t := by
  intro written
  obtain ⟨v, doc, found, documented, same⟩ := indexed (h.written.mp written)
  exact ⟨v, doc, h.latest.trans found, h.doc.trans documented, same⟩

/-! ## What the calls do -/

theorem latest_upload_self (versions : List Version) (v : Version) :
    latest (upload versions v) v.key = some v := by
  unfold upload
  split <;> simp [latest]

theorem latest_upload_ne (versions : List Version) (v : Version) {key : String} (ne : key ≠ v.key) :
    latest (upload versions v) key = latest versions key := by
  unfold upload latest
  split
  · rw [List.find?_cons_of_neg (by simpa using Ne.symm ne), List.find?_filter]
    congr 1
    funext old
    by_cases same : old.key = key
    · simp [same, ne]
    · simp [same]
  · rw [List.find?_cons_of_neg (by simpa using Ne.symm ne)]

theorem latest_retag_self (key : String) (tags : Tags) (versions : List Version) :
    latest (retag key tags versions) key = (latest versions key).map fun v =>
      { v with tags := tags } := by
  induction versions with
  | nil => rfl
  | cons v rest ih =>
    by_cases same : v.key = key
    · simp [retag, latest, same]
    · simpa [retag, latest, same] using ih

theorem latest_retag_ne {key other : String} (ne : other ≠ key) (tags : Tags)
    (versions : List Version) :
    latest (retag key tags versions) other = latest versions other := by
  induction versions with
  | nil => rfl
  | cons v rest ih =>
    by_cases same : v.key = key
    · simp [retag, latest, same, Ne.symm ne]
    · by_cases mine : v.key = other
      · simp [retag, latest, mine, ne]
      · simpa [retag, latest, same, mine] using ih

theorem keeps_putObject {s : Env} {v : Version} {key : String} (ne : key ≠ v.key) :
    Keeps key s (putObject s v) :=
  ⟨latest_upload_ne _ _ ne, rfl, by simp [putObject, ne]⟩

theorem keeps_putTags {s : Env} {key other : String} (ne : other ≠ key) (tags : Tags) :
    Keeps other s (putTags s key tags) :=
  ⟨latest_retag_ne ne _ _, rfl, by simp [putTags, ne]⟩

theorem keeps_index {s : Env} {doc : Search.FileDoc} {key : String} (ne : s3Id key ≠ doc.docId) :
    Keeps key s { s with index := Search.indexFile s.index doc } :=
  ⟨rfl, Search.Index.get_index_ne _ ne _, Iff.rfl⟩

/-- The calls of a request are about its own object, or about no object. -/
def touches (q : Incoming) : Effect → Prop
  | .s3 (.putObject key ..) => s3Key q = some key
  | .s3 (.putObjectTagging key _) => s3Key q = some key
  | .indexFile doc => doc.backend = "hdfs" ∨ (doc.backend = "s3" ∧ s3Key q = some doc.key)
  | _ => True

/-- The object store says of an upload under which key it is. -/
def told : (e : Effect) → e.Result → Prop
  | .s3 (.putObject key ..), .ok info => info.key = key
  | _, _ => True

theorem respond_told {s t : Env} {e : Effect} {c : Choice} {r : e.Result}
    (h : respond s e c = some (r, t)) : told e r := by
  cases e with
  | s3 call =>
    cases call with
    | putObject key body size contentType tags =>
      simp only [respond, respondS3] at h
      split at h
      · cases (Option.ite_none_right_eq_some.mp h).2
        rfl
      · cases h
        exact trivial
      · cases (Option.ite_none_right_eq_some.mp h).2
        exact trivial
    | _ => exact trivial
  | _ => exact trivial

/-- A file in HDFS is not an object. -/
theorem keeps_hdfs {s : Env} (files : List HdfsFile) (key : String) :
    Keeps key s { s with hdfs := files } :=
  ⟨rfl, rfl, Iff.rfl⟩

theorem respondHdfs_keeps {s t : Env} {call : Hdfsstore.Call} {c : Choice} {r : call.Result}
    (h : respondHdfs s call c = some (r, t)) (key : String) : Keeps key s t := by
  by_cases reads : HdfsReads call
  · rw [respondHdfs_reads reads h]
    exact .refl key s
  · cases call with
    | remove target =>
      simp only [respondHdfs] at h
      split at h <;> cases h
      · exact keeps_hdfs _ key
      · exact .refl key s
      · exact keeps_hdfs _ key
    | createFile target =>
      simp only [respondHdfs] at h
      split at h <;> cases h
      · exact keeps_hdfs _ key
      · exact keeps_hdfs _ key
      · exact .refl key s
    | copy target body =>
      simp only [respondHdfs] at h
      split at h
      · cases h
        exact .refl key s
      · cases (Option.ite_none_right_eq_some.mp h).2
        exact keeps_hdfs _ key
      · cases h
        exact keeps_hdfs _ key
    | close target =>
      simp only [respondHdfs] at h
      split at h <;> cases h
      · exact keeps_hdfs _ key
      · exact .refl key s
    | _ => exact (reads rfl).elim

theorem s3Id_injective {key other : String} (same : s3Id key = s3Id other) : key = other := by
  simpa [s3Id, String.append_right_inj] using same

theorem s3Id_ne_hdfs (key other : String) : s3Id key ≠ "hdfs" ++ ":" ++ other := by
  intro same
  have chars := congrArg String.toList same
  simp [s3Id, String.toList_append] at chars

/-- **Other requests.** The call of a request that writes another object, or none. -/
theorem respond_keeps {s t : Env} {q : Incoming} {e : Effect} {c : Choice} {r : e.Result}
    {key : String} (other : s3Key q ≠ some key) (touch : touches q e)
    (h : respond s e c = some (r, t)) :
    Keeps key s t := by
  by_cases reads : Reads e
  · rw [respond_reads reads h]
    exact .refl key s
  · cases e with
    | s3 call =>
      cases call with
      | putObject name body size contentType tags =>
        have ne : key ≠ name := fun same => other (same ▸ touch)
        simp only [respond, respondS3] at h
        split at h
        · cases (Option.ite_none_right_eq_some.mp h).2
          exact keeps_putObject ne
        · cases h
          exact .refl key s
        · cases (Option.ite_none_right_eq_some.mp h).2
          exact keeps_putObject ne
      | putObjectTagging name tags =>
        have ne : key ≠ name := fun same => other (same ▸ touch)
        simp only [respond, respondS3] at h
        split at h <;> cases h
        · exact keeps_putTags ne tags
        · exact keeps_putTags ne tags
        · exact .refl key s
      | _ => exact (reads rfl).elim
    | hdfs call => exact respondHdfs_keeps h key
    | indexFile doc =>
      have ne : s3Id key ≠ doc.docId := by
        rw [Search.FileDoc.docId]
        rcases touch with hdfs | ⟨s3, mine⟩
        · rw [hdfs]
          exact s3Id_ne_hdfs key doc.key
        · rw [s3]
          intro same
          exact other (s3Id_injective same ▸ mine)
      simp only [respond] at h
      split at h <;> cases h
      · exact keeps_index ne
      · exact .refl key s
      · exact keeps_index ne
    | _ => exact (reads rfl).elim

/-! ## What the requests touch -/

theorem touches_of_reads {q : Incoming} {e : Effect} (reads : Reads e) : touches q e := by
  cases e with
  | s3 call =>
    cases call with
    | putObject | putObjectTagging => cases reads
    | _ => exact trivial
  | indexFile doc => cases reads
  | _ => exact trivial

theorem hdfs_touches {α : Type} (q : Incoming) (code : Hdfsstore.Code α) :
    (hdfs code).All (touches q) :=
  Prog.all_lift (Prog.all_of_forall (fun _ => trivial) code)

/-- The last steps of a request that writes: the document, and the answer. -/
def documented (cfg : Config) (doc : Search.FileDoc) (reply : Reply) : Handler Reply := do
  Handlers.Files.indexFile cfg doc
  return reply

theorem documented_touches (q : Incoming) (cfg : Config) {doc : Search.FileDoc} (reply : Reply)
    (mine : touches q (.indexFile doc)) : (documented cfg doc reply).All (touches q) := by
  unfold documented Handlers.Files.indexFile
  split
  · exact ⟨mine, fun _ => trivial⟩
  · exact trivial

theorem uploadHdfs_touches (q : Incoming) (cfg : Config) (name : String) (tags : Tags)
    (body : Upload) :
    (uploadHdfs cfg name tags body).All (touches q) := by
  unfold uploadHdfs
  split
  · refine Prog.all_bind (hdfs_touches q _) fun stored => ?_
    cases stored with
    | error e => exact trivial
    | ok file =>
      refine ⟨trivial, fun t => ?_⟩
      change (documented cfg ⟨file.name, "hdfs", file.size, "", tags, t⟩ _).All (touches q)
      exact documented_touches q cfg _ (.inl rfl)
  · exact trivial

theorem uploadS3_touches {q : Incoming} (cfg : Config) (r : Params) {name : String}
    (mine : s3Key q = some name) (tags : Tags) (body : Upload) :
    (uploadS3 cfg r name tags body).AllGiven told (touches q) := by
  unfold uploadS3
  split
  · refine ⟨mine, fun answer known => ?_⟩
    cases answer with
    | error e => exact trivial
    | ok info =>
      refine ⟨trivial, fun t _ => ?_⟩
      have named : info.key = name := known
      change (documented cfg ⟨info.key, "s3", info.size, info.versionID, tags, t⟩ _).AllGiven told _
      exact (documented_touches q cfg _ (.inr ⟨rfl, named ▸ mine⟩)).given fun _ h => h
  · exact trivial

theorem updateTags_touches {q : Incoming} (cfg : Config) (r : Params)
    (mine : s3Key q = some (fileKey r)) :
    (updateTags cfg r).All (touches q) := by
  unfold updateTags
  split
  · split
    · exact trivial
    · refine ⟨mine, fun answer => ?_⟩
      cases answer with
      | error e => exact trivial
      | ok done =>
        refine ⟨trivial, fun found => ?_⟩
        cases found with
        | error e => exact trivial
        | ok info =>
          refine ⟨trivial, fun t => ?_⟩
          change
            (documented cfg ⟨fileKey r, "s3", info.size, info.versionID, _, t⟩ _).All (touches q)
          exact documented_touches q cfg _ (.inr ⟨rfl, mine⟩)
  · exact trivial

/-- The calls of a request, as the stores answer them. -/
theorem serve_touches (cfg : Config) (q : Incoming) : (serve cfg q).AllGiven told (touches q) := by
  by_cases reads : q.route.writes = false
  · exact (serve_reads cfg q reads).given fun _ => touches_of_reads
  · obtain ⟨route, r⟩ := q
    cases route with
    | upload =>
      simp only [serve, uploadFile]
      split
      · exact trivial
      · next name named =>
        split
        · exact (uploadHdfs_touches _ cfg name _ _).given fun _ h => h
        · next s3 =>
          refine uploadS3_touches cfg r ?_ _ _
          simp only [s3Key, s3, named]
    | tags =>
      simp only [serve]
      exact (updateTags_touches cfg r rfl).given fun _ h => h
    | _ => cases reads rfl

/-! ## What a request restores -/

/-- The call succeeds. -/
def succeeds (c : Choice) : Prop := c.fate = .ok

instance : DecidablePred succeeds := fun c => inferInstanceAs (Decidable (c.fate = .ok))

/-- What a successful upload leaves and answers. -/
theorem putObject_ok {s t : Env} {key contentType : String} {body : Upload} {size : Int}
    {tags : Tags} {c : Choice} (ok : succeeds c) {r : Except Blobstore.Err Blobstore.Info}
    (h : respondS3 s (.putObject key body size contentType tags) c = some (r, t)) :
    ∃ v : Version, v.key = key ∧ v.tags = tags ∧ r = .ok (v.info true) ∧ t = putObject s v := by
  obtain ⟨fate, version, etag, copied, visible, closeErr, source, result, events, event,
    messages⟩ := c
  cases ok
  cases (Option.ite_none_right_eq_some.mp h).2
  exact ⟨_, rfl, rfl, rfl, rfl⟩

/-- What a successful change of tags leaves and answers: there is an object to change, or there is
none and nothing changes. -/
theorem putTags_ok {s t : Env} {key : String} {tags : Tags} {c : Choice} (ok : succeeds c)
    {r : Except Blobstore.Err Unit} (h : respondS3 s (.putObjectTagging key tags) c = some (r, t)) :
    (∃ v, latest s.versions key = some v ∧ r = .ok () ∧ t = putTags s key tags) ∨
      (r = .error .client ∧ t = s) := by
  obtain ⟨fate, version, etag, copied, visible, closeErr, source, result, events, event,
    messages⟩ := c
  cases ok
  cases found : latest s.versions key with
  | none =>
    simp only [respondS3, found] at h
    cases h
    exact .inr ⟨rfl, rfl⟩
  | some v =>
    simp only [respondS3, found] at h
    cases h
    exact .inl ⟨v, rfl, rfl, rfl⟩

/-- What is answered of the latest version. -/
theorem stat_ok {s t : Env} {key : String} {v : Version} (found : latest s.versions key = some v)
    {c : Choice} (ok : succeeds c) {r : Except Blobstore.Err Blobstore.Info}
    (h : respondS3 s (.statObject key "") c = some (r, t)) : r = .ok (v.info true) ∧ t = s := by
  obtain ⟨fate, version, etag, copied, visible, closeErr, source, result, events, event,
    messages⟩ := c
  cases ok
  simp only [respondS3, select, if_true, found] at h
  cases h
  exact ⟨rfl, rfl⟩

variable {cfg : Config}

/-- The answers to a request whose calls all succeed. -/
abbrev answered (cfg : Config) (caller : Nat × Incoming) := (machine cfg).answers succeeds caller

/-- The document of the latest version is written. -/
theorem documented_agrees (search : cfg.search = true) {caller : Nat × Incoming} {s : Env}
    {key : String} {v : Version} (found : latest s.versions key = some v) {doc : Search.FileDoc}
    (id : doc.docId = s3Id key)
    (same : doc.tags = v.tags ∧ doc.size = v.body.length ∧ doc.versionID = v.id) (reply : Reply) :
    (documented cfg doc reply).Safe (Keeps key) (answered cfg caller)
      (fun _ t => Indexed key t) s := by
  unfold documented Handlers.Files.indexFile
  rw [if_pos search]
  rintro s₁ kept answer s₂ ⟨c, ok, responds⟩ _
  obtain ⟨fate, version, etag, copied, visible, closeErr, source, result, events, event,
    messages⟩ := c
  cases ok
  cases responds
  exact ⟨v, doc, kept.latest.trans found, id ▸ Search.Index.get_index_self _ _ _, same⟩

theorem uploadS3_agrees (search : cfg.search = true) (caller : Nat × Incoming) (r : Params)
    (name : String) (tags : Tags) (body : Upload) {s : Env} (before : Indexed name s) :
    (uploadS3 cfg r name tags body).Safe (Keeps name) (answered cfg caller)
      (fun _ t => Indexed name t) s := by
  unfold uploadS3
  split
  · rintro s₁ - answer s₂ ⟨c, ok, responds⟩
    obtain ⟨v, rfl, rfl, rfl, rfl⟩ := putObject_ok ok responds
    rintro s₃ kept now s₄ ⟨_, _, moved⟩
    cases moved
    exact documented_agrees search (kept.latest.trans (latest_upload_self _ v)) rfl
      ⟨rfl, rfl, rfl⟩ _
  · exact before

/-- The object has other tags by now, and its document gets them. -/
theorem indexTags_agrees (search : cfg.search = true) {caller : Nat × Incoming} {s : Env}
    {key : String} {v : Version} (found : latest s.versions key = some v) :
    (indexTags cfg key v.tags).Safe (Keeps key) (answered cfg caller)
      (fun _ t => Indexed key t) s := by
  rintro s₁ kept answer s₂ ⟨c, ok, responds⟩
  have found₁ := kept.latest.trans found
  obtain ⟨rfl, rfl⟩ := stat_ok found₁ ok responds
  rintro s₃ kept' now s₄ ⟨_, _, moved⟩
  cases moved
  exact documented_agrees search (kept'.latest.trans found₁) rfl ⟨rfl, rfl, rfl⟩ _

theorem updateTags_agrees (search : cfg.search = true) (caller : Nat × Incoming) (r : Params)
    {s : Env} (before : Indexed (fileKey r) s) :
    (updateTags cfg r).Safe (Keeps (fileKey r)) (answered cfg caller)
      (fun _ t => Indexed (fileKey r) t) s := by
  unfold updateTags
  split
  · split
    · exact before
    · next tags _ =>
      rintro s₁ kept answer s₂ ⟨c, ok, responds⟩
      rcases putTags_ok ok responds with ⟨v, found, rfl, rfl⟩ | ⟨rfl, rfl⟩
      · have found' : latest (putTags s₁ (fileKey r) tags).versions (fileKey r) =
            some { v with tags := tags } := by
          rw [putTags, latest_retag_self, found, Option.map_some]
        exact indexTags_agrees search found'
      · exact kept.indexed before
  · exact before

/-- Requests with different keys do not meet, and each restores its own document. -/
theorem files_apart (search : cfg.search = true) :
    (machine cfg).Apart (fun s => s.written = []) succeeds s3Key Indexed Keeps told touches where
  start s none key written := by
    rw [none] at written
    cases written
  trans _ _ _ _ first second := first.trans second
  refl := Keeps.refl
  carry _ _ _ kept := kept.indexed
  arrives key s q t taken := by
    cases taken
    exact Keeps.refl key s
  moves key s elapsed t moved := by
    cases moved
    exact ⟨rfl, rfl, Iff.rfl⟩
  honest _ _ _ _ _ _ := respond_told
  touched := serve_touches cfg
  frame key s i q e c r t other _ asked responds := respond_keeps other asked responds
  triple key i q s mine before := by
    obtain ⟨route, r⟩ := q
    cases route with
    | upload =>
      simp only [machine, serve, uploadFile]
      simp only [s3Key] at mine
      split at mine
      · next backend =>
        simp only [mine, backend]
        exact uploadS3_agrees search _ r key _ _ before
      · cases mine
    | tags =>
      cases mine
      simp only [machine, serve]
      exact updateTags_agrees search _ r before
    | _ => cases mine

/-- Any number of requests at once, whose calls all succeed. -/
def succeeding (cfg : Config) : System State (Move Incoming Choice Nat) :=
  ((machine cfg).only fun _ _ _ c => succeeds c).system fun s => s.written = []

/-- Those among them in which requests that write one object are not under way at once. -/
def takingTurns (cfg : Config) : System State (Move Incoming Choice Nat) :=
  (machine cfg).apart (fun s => s.written = []) succeeds s3Key

/-- **The index agrees at rest.** Where requests that write one object take turns, and none is under
way, its document has the tags, the size and the version of its latest version. -/
theorem file_index_agrees (search : cfg.search = true) {w : State}
    (reached : (takingTurns cfg).Reachable w) {key : String} (idle : ¬ Busy s3Key w key)
    (written : key ∈ w.env.written) : Agrees w.env key :=
  (files_apart search).rest reached idle written

/-- An app with an object store and a search engine; a body of tags sets the tag `x`. -/
def indexedApp : Config where
  blobs := true
  files := false
  events := false
  search := true
  searcher := true
  bucket := "files"
  dir := "/"
  tags body := if body = [] then none else some [("x", "1")]
  lower text := text

def emptyStores : State := ⟨⟨[], [], [], 0, []⟩, [], []⟩

/-- An upload of one byte under the name `a`. -/
def uploadOf (byte : UInt8) : Incoming where
  route := .upload
  params := {
    request := ⟨"POST", "/files?name=a", Header.empty, [byte], ""⟩
    query name := if name = "name" then "a" else ""
    pathValue _ := ""
    contentLength := 1
    complete := true }

/-- A change of tags of the object `a`. -/
def tagsOf (body : Bytes) : Incoming where
  route := .tags
  params := {
    request := ⟨"PUT", "/files/a/tags", Header.empty, body, ""⟩
    query _ := ""
    pathValue name := if name = "key" then "a" else ""
    contentLength := 1
    complete := true }

/-- A call that succeeds; an upload gets the version `version`. -/
def okAs (version : String) : Choice where
  fate := .ok
  version := version
  etag := ""
  copied := 0
  visible := 0
  closeErr := .client
  source := 0
  result := ⟨0, 0, [], []⟩
  events := []
  event := ⟨0, "", "", "", 0⟩
  messages := []

/-- The calls of request `i`. -/
def calls (i n : Nat) (version : String) : List (Move Incoming Choice Nat) :=
  List.replicate n (.go i (okAs version))

/-- An upload, a change of tags and a second upload, one after another. -/
theorem file_index_agrees_uploaded :
    ∃ w, (takingTurns indexedApp).Reachable w ∧ ¬ Busy s3Key w "a" ∧ "a" ∈ w.env.written ∧
      w.env.versions.length = 2 ∧ Agrees w.env "a" := by
  have replayed : ∃ w, System.replay (fun w mv =>
      if separate s3Key (fun c => decide (succeeds c)) w mv then
        (machine indexedApp).step w mv
      else none)
      emptyStores (.arrive (uploadOf 7) :: calls 0 3 "1" ++ .arrive (tagsOf [1]) :: calls 1 4 "" ++
        .arrive (uploadOf 8) :: calls 2 3 "2") = some w ∧
      w.procs.all (fun p => Pool.returned p.2) = true ∧ w.env.written = ["a", "a", "a"] ∧
      w.env.versions.length = 2 := ⟨_, rfl, rfl, rfl, rfl⟩
  obtain ⟨w, run, done, written, two⟩ := replayed
  have reached : (takingTurns indexedApp).Reachable w :=
    ⟨_, ⟨rfl, rfl, rfl⟩, apart_of_separate _ run⟩
  have idle : ¬ Busy s3Key w "a" := by
    rintro ⟨i, q, e, next, runs, _⟩
    exact Pool.idle_of_returned done i q e next runs
  have mem : "a" ∈ w.env.written := by simp [written]
  exact ⟨w, reached, idle, mem, two, file_index_agrees rfl reached idle mem⟩

/-- **The older document comes last.** Of two uploads of one object the second gets the latest
version, and the document of the first overwrites its document; both are confirmed. -/
theorem file_index_stale :
    ∃ w, (succeeding indexedApp).Reachable w ∧ w.Idle ∧ "a" ∈ w.env.written ∧
      w.answered.map (fun a => a.2.1.status) = [201, 201] ∧ ¬ Agrees w.env "a" := by
  have replayed : ∃ w v doc,
    System.replay ((machine indexedApp).only fun _ _ _ c => succeeds c).step
      emptyStores (.arrive (uploadOf 7) :: .arrive (uploadOf 8) :: calls 0 1 "1" ++ calls 1 3 "2" ++
        calls 0 2 "") = some w ∧
      w.procs.all (fun p => Pool.returned p.2) = true ∧ w.env.written = ["a", "a"] ∧
      w.answered.map (fun a => a.2.1.status) = [201, 201] ∧
      latest w.env.versions "a" = some v ∧ w.env.index.get (s3Id "a") = some doc ∧
      v.id = "2" ∧ doc.versionID = "1" := ⟨_, _, _, rfl, rfl, rfl, rfl, rfl, rfl, rfl, rfl⟩
  obtain ⟨w, v, doc, run, done, written, confirmed, newest, documented, second, first⟩ := replayed
  refine ⟨w, ⟨_, ⟨rfl, rfl, rfl⟩, System.Runs.of_replay run⟩, Pool.idle_of_returned done, ?_,
    confirmed, ?_⟩
  · simp [written]
  · rintro ⟨v', doc', newest', documented', _, _, same⟩
    rw [newest] at newest'
    rw [documented] at documented'
    cases newest'
    cases documented'
    rw [first, second] at same
    exact absurd same (by decide)

end OtusApp.Files
