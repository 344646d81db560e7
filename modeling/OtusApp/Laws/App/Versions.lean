import OtusApp.Laws.App.FileIndex

/-!
# A version of an object never changes

`blobstore.New` turns the versioning of the bucket on, so that an upload gets an identifier that no
other version of the object has. Whatever the requests do at the same time, a version that an upload
has reported is downloaded with the bytes of that upload (`version_round_trip`): a later upload of
the same name and other tags do not touch it.
-/

namespace OtusApp.Files.Versioning

open Go Messaging Program Transition Handlers.Files
open Blobstore (Tags)

/-! ## The bucket -/

/-- The names of the versions. -/
def names (versions : List Version) : List (String × String) := versions.map fun v => (v.key, v.id)

/-- What the names stand for. -/
def contents (versions : List Version) : List ((String × String) × Bytes) :=
  versions.map fun v => ((v.key, v.id), v.body)

/-- An upload that takes effect gets a new name. -/
def versioning (s : Env) (_ : Nat × Incoming) : Effect → Choice → Bool
  | .s3 (.putObject key ..), c =>
    c.fate = .failed ∨ (c.version ≠ "" ∧ (key, c.version) ∉ names s.versions)
  | _, _ => true

/-- The handlers over a bucket with versioning. -/
def versioned (cfg : Config) : Machine Incoming Effect Effect.Result Reply Env Choice Nat :=
  (machine cfg).only versioning

/-- Every version has a name of its own. -/
def Named (s : Env) : Prop := (names s.versions).Nodup

/-- Every name stands for what it stood for. -/
def Kept (s t : Env) : Prop := contents s.versions ⊆ contents t.versions

variable {cfg : Config} {s t : Env} {caller : Nat × Incoming}

theorem names_retag (key : String) (tags : Tags) (versions : List Version) :
    names (retag key tags versions) = names versions := by
  induction versions with
  | nil => rfl
  | cons v rest ih =>
    unfold retag
    split
    · rfl
    · exact congrArg (List.cons (v.key, v.id)) ih

theorem contents_retag (key : String) (tags : Tags) (versions : List Version) :
    contents (retag key tags versions) = contents versions := by
  induction versions with
  | nil => rfl
  | cons v rest ih =>
    unfold retag
    split
    · rfl
    · exact congrArg (List.cons ((v.key, v.id), v.body)) ih

theorem upload_named {versions : List Version} {v : Version} (named : v.id ≠ "") :
    upload versions v = v :: versions :=
  if_neg named

/-- An upload under a new name. -/
theorem putObject_kept {v : Version} (named : v.id ≠ "") (new : (v.key, v.id) ∉ names s.versions)
    (distinct : Named s) :
    Named (putObject s v) ∧ Kept s (putObject s v) := by
  simp only [Named, Kept, putObject, upload_named named]
  exact ⟨List.nodup_cons.mpr ⟨new, distinct⟩, List.subset_cons_self _ _⟩

theorem putTags_kept (key : String) (tags : Tags) (distinct : Named s) :
    Named (putTags s key tags) ∧ Kept s (putTags s key tags) := by
  simp only [Named, Kept, putTags, names_retag, contents_retag]
  exact ⟨distinct, List.Subset.refl _⟩

/-- The file system is apart from the bucket. -/
theorem versions_respondHdfs {call : Hdfsstore.Call} {c : Choice} {r : call.Result}
    (h : respondHdfs s call c = some (r, t)) :
    t.versions = s.versions := by
  by_cases reads : HdfsReads call
  · rw [respondHdfs_reads reads h]
  · cases call with
    | remove | createFile | close =>
      simp only [respondHdfs] at h
      split at h <;> cases h <;> rfl
    | copy target body =>
      simp only [respondHdfs] at h
      split at h
      · cases h
        rfl
      · cases (Option.ite_none_right_eq_some.mp h).2
        rfl
      · cases h
        rfl
    | _ => exact (reads rfl).elim

/-- **One call.** -/
theorem respond_kept {e : Effect} {c : Choice} {r : e.Result} (distinct : Named s)
    (admitted : versioning s caller e c = true) (h : respond s e c = some (r, t)) :
    Named t ∧ Kept s t := by
  have same : t.versions = s.versions → Named t ∧ Kept s t := by
    intro versions
    simp only [Named, Kept, versions]
    exact ⟨distinct, List.Subset.refl _⟩
  by_cases reads : Reads e
  · rw [respond_reads reads h] at same ⊢
    exact same rfl
  · cases e with
    | s3 call =>
      cases call with
      | putObject key body size contentType tags =>
        simp only [versioning, decide_eq_true_eq] at admitted
        simp only [respond, respondS3] at h
        split at h
        · next ok =>
          cases (Option.ite_none_right_eq_some.mp h).2
          simp only [ok, reduceCtorEq, false_or] at admitted
          exact putObject_kept admitted.1 admitted.2 distinct
        · cases h
          exact same rfl
        · next lost =>
          cases (Option.ite_none_right_eq_some.mp h).2
          simp only [lost, reduceCtorEq, false_or] at admitted
          exact putObject_kept admitted.1 admitted.2 distinct
      | putObjectTagging key tags =>
        simp only [respond, respondS3] at h
        split at h <;> cases h
        · exact putTags_kept key tags distinct
        · exact putTags_kept key tags distinct
        · exact same rfl
      | _ => exact (reads rfl).elim
    | hdfs call => exact same (versions_respondHdfs h)
    | indexFile doc =>
      simp only [respond] at h
      split at h <;> cases h <;> exact same rfl
    | _ => exact (reads rfl).elim

/-! ## What the requests guarantee -/

/-- What an upload reports is in the bucket. -/
def Uploaded (q : Incoming) (reply : Reply) (s : Env) : Prop :=
  ∀ obj, q.route = .upload → reply.body = .json (.uploadedObject obj) →
    obj.versionID ≠ "" ∧ ((obj.key, obj.versionID), q.params.request.body) ∈ contents s.versions

/-- What a download of a version sends is in the bucket under its name. -/
def Downloaded (q : Incoming) (reply : Reply) (s : Env) : Prop :=
  q.route = .download → backendParam q.params = .s3 →
  (parseRange (q.params.request.header.get "Range")).ok = false →
    q.params.query "version" ≠ "" → reply.status = 200 →
    ∃ bytes, reply.body = .stream bytes ∧
    ((fileKey q.params, q.params.query "version"), bytes) ∈ contents s.versions ∧
      reply.header.get "X-Version-Id" = q.params.query "version"

/-- What the answer to a request says of the bucket. -/
def Tells (q : Incoming) (reply : Reply) (s : Env) : Prop :=
  Uploaded q reply s ∧ Downloaded q reply s

theorem Tells.later {q : Incoming} {reply : Reply} (h : Tells q reply s) (kept : Kept s t) :
    Tells q reply t := by
  refine ⟨fun obj route is => (h.1 obj route is).imp_right fun stored => kept stored,
    fun route backend plain version ok => ?_⟩
  obtain ⟨bytes, body, stored, header⟩ := h.2 route backend plain version ok
  exact ⟨bytes, body, kept stored, header⟩

theorem kept_trans {r : Env} (h : Kept s t) (h' : Kept t r) : Kept s r := List.Subset.trans h h'

/-- What the calls of a request are answered. -/
abbrev answered (cfg : Config) (caller : Nat × Incoming) :
    Env → (e : Effect) → e.Result → Env → Prop :=
  (versioned cfg).answersIn Named caller

theorem answered_kept {e : Effect} {r : e.Result} (h : answered cfg caller s e r t) : Kept s t := by
  obtain ⟨distinct, c, responds⟩ := h
  obtain ⟨admitted, responds⟩ := Machine.respond_only.mp responds
  exact (respond_kept distinct admitted responds).2

/-- What is in the bucket stays there, whatever the request does. -/
theorem stored_safe {entry : (String × String) × Bytes} {α : Type} (x : Handler α)
    (h : entry ∈ contents s.versions) :
    x.Safe Kept (answered cfg caller) (fun _ t => entry ∈ contents t.versions) s :=
  Prog.safe_of_kept (J := fun t : Env => entry ∈ contents t.versions) (fun _ _ kept mem => kept mem)
    (fun _ _ _ _ answer mem => answered_kept answer mem) x h

/-- An upload that succeeds is complete. -/
theorem bytes_of_complete {limit : Nat} {u : Upload}
    (complete : (maxBytesReader limit u).complete = true) :
    (maxBytesReader limit u).bytes = u.bytes := by
  unfold maxBytesReader at complete ⊢
  split
  · rfl
  · next long =>
    rw [if_neg long] at complete
    cases complete

/-- The answer of the object store to an upload. -/
theorem answered_putObject {key contentType : String} {body : Upload} {size : Int} {tags : Tags}
    {info : Blobstore.Info}
    (h : answered cfg caller s (.s3 (.putObject key body size contentType tags)) (.ok info) t) :
    info.versionID ≠ "" ∧ body.complete = true ∧
    ((info.key, info.versionID), body.bytes) ∈ contents t.versions := by
  obtain ⟨_, c, responds⟩ := h
  obtain ⟨admitted, responds⟩ := Machine.respond_only.mp responds
  have responds : respondS3 s (.putObject key body size contentType tags) c = some
    (.ok info, t) := responds
  simp only [versioning, decide_eq_true_eq] at admitted
  simp only [respondS3] at responds
  split at responds
  · next ok =>
    obtain ⟨complete, same⟩ := Option.ite_none_right_eq_some.mp responds
    cases same
    simp only [ok, reduceCtorEq, false_or] at admitted
    have uploaded :=
      @upload_named s.versions ⟨key, c.version, body.bytes, contentType, c.etag, tags,
        s.clock⟩ admitted.1
    refine ⟨admitted.1, complete, ?_⟩
    simp only [putObject, uploaded]
    exact List.mem_cons_self
  · cases responds
  · cases (Option.ite_none_right_eq_some.mp responds).2

/-- The answer of the object store to a download. -/
theorem answered_getObject {key version : String} (named : version ≠ "") {bytes : Bytes}
    {info : Blobstore.Info}
    (h : answered cfg caller s (.s3 (.getObject key version none)) (.ok (bytes, info)) t) :
    info.versionID = version ∧ ((key, version), bytes) ∈ contents t.versions := by
  obtain ⟨_, c, responds⟩ := h
  obtain ⟨_, responds⟩ := Machine.respond_only.mp responds
  have responds : respondS3 s (.getObject key version none) c = some
    (.ok (bytes, info), t) := responds
  simp only [respondS3, rangeBytes] at responds
  split at responds
  · next v _ found =>
    cases responds
    rw [select, if_neg named] at found
    have is := List.find?_some found
    simp only [decide_eq_true_eq] at is
    obtain ⟨rfl, rfl⟩ := is
    exact ⟨rfl, List.mem_map_of_mem (List.mem_of_find?_eq_some found)⟩
  · cases responds

/-- `Put` that succeeds has stored its body under the name it reports. -/
theorem s3Put_safe (key : String) (body : Upload) (size : Int) (contentType : String) (tags : Tags)
    (s : Env) :
    (s3 (Blobstore.put key body size contentType tags)).Safe Kept (answered cfg caller)
      (fun result t => ∀ obj, result = .ok obj →
      obj.versionID ≠ "" ∧ body.complete = true ∧
      ((obj.key, obj.versionID), body.bytes) ∈ contents t.versions) s := by
  intro s₁ _ answer s₂ answers
  cases answer with
  | error e =>
    rintro obj ⟨⟩
  | ok info =>
    rintro obj ⟨⟩
    exact answered_putObject answers

/-- `Get` of a whole version that succeeds gives what is stored under its name. -/
theorem s3Get_safe (key : String) {version : String} (named : version ≠ "") (s : Env) :
    (s3 (Blobstore.get key version 0 0)).Safe Kept (answered cfg caller)
      (fun result t => ∀ body obj, result = .ok (body, obj) →
      obj.versionID = version ∧ ((key, version), body) ∈ contents t.versions) s := by
  intro s₁ _ answer s₂ answers
  cases answer with
  | error e =>
    rintro body obj ⟨⟩
  | ok got =>
    rintro body obj ⟨⟩
    exact answered_getObject named answers

/-- An answer that reports no object. -/
theorem tells_upload {q : Incoming} {reply : Reply} (route : q.route = .upload)
    (other : ∀ obj, reply.body ≠ .json (.uploadedObject obj)) (s : Env) : Tells q reply s := by
  refine ⟨fun obj _ is => absurd is (other obj), fun is => ?_⟩
  rw [route] at is
  cases is

theorem error_ne_object (status : Nat) (text : String) (obj : Blobstore.Object) :
    (Handlers.Files.writeError status text).body ≠ .json (.uploadedObject obj) := by
  simp [Handlers.Files.writeError, Handlers.Files.writeJSON]

theorem uploadS3_tells {q : Incoming} (route : q.route = .upload) (name : String) (tags : Tags)
    (complete : Bool) (s : Env) :
    (uploadS3 cfg q.params name tags
      (maxBytesReader maxUploadSize ⟨q.params.request.body, complete⟩)).Safe Kept
      (answered cfg caller) (Tells q) s := by
  unfold uploadS3
  split
  · refine Prog.Safe.bind (s3Put_safe _ _ _ _ _ s) fun result s₁ put => ?_
    cases result with
    | error e => exact tells_upload route (error_ne_object _ _) s₁
    | ok obj =>
      obtain ⟨named, whole, stored⟩ := put obj rfl
      rw [bytes_of_complete whole] at stored
      refine Prog.Safe.bind (stored_safe _ stored) fun t s₂ stored => ?_
      refine Prog.Safe.bind (stored_safe _ stored) fun _ s₃ stored => ?_
      refine ⟨fun obj' _ is => ?_, fun is => ?_⟩
      · cases is
        exact ⟨named, stored⟩
      · rw [route] at is
        cases is
  · exact tells_upload route (error_ne_object _ _) s

theorem uploadHdfs_tells {q : Incoming} (route : q.route = .upload) (name : String) (tags : Tags)
    (body : Upload) (s : Env) :
    (uploadHdfs cfg name tags body).Safe Kept (answered cfg caller) (Tells q) s := by
  unfold uploadHdfs
  split
  · refine Prog.Safe.bind (Prog.safe_true _ s) fun result s₁ _ => ?_
    cases result with
    | error e => exact tells_upload route (error_ne_object _ _) s₁
    | ok file =>
      refine Prog.Safe.bind (Prog.safe_true _ s₁) fun _ s₂ _ => ?_
      refine Prog.Safe.bind (Prog.safe_true _ s₂) fun _ s₃ _ => tells_upload route ?_ s₃
      intro obj is
      cases is
  · exact tells_upload route (error_ne_object _ _) s

theorem uploadFile_tells {q : Incoming} (route : q.route = .upload) (s : Env) :
    (uploadFile cfg q.params).Safe Kept (answered cfg caller) (Tells q) s := by
  unfold uploadFile
  split
  · exact tells_upload route (error_ne_object _ _) s
  · next name _ =>
    dsimp only
    cases backendParam q.params with
    | hdfs => exact uploadHdfs_tells route name _ _ s
    | s3 => exact uploadS3_tells route name _ _ s

/-- Without a range there are no bounds. -/
theorem parseRange_refused {header : String} (refused : (parseRange header).ok = false) :
    parseRange header = ⟨0, 0, false⟩ := by
  unfold parseRange at refused ⊢
  split
  · rfl
  · next raw found =>
    rw [found] at refused
    dsimp only at refused ⊢
    split
    · rfl
    · next start number =>
      rw [number] at refused
      dsimp only at refused
      split
      · rfl
      · next valid =>
        rw [if_neg valid] at refused
        unfold parseEnd at refused
        split at refused
        · cases refused
        · split at refused
          · cases refused
          · split at refused <;> cases refused

/-- An answer to a download that is an error. -/
theorem tells_download {q : Incoming} {reply : Reply} (route : q.route = .download)
    (failed : reply.status ≠ 200) (s : Env) :
    Tells q reply s := by
  refine ⟨fun obj is => ?_, fun _ _ _ _ ok => absurd ok failed⟩
  rw [route] at is
  cases is

/-- The header of an answer names the version. -/
theorem serveFile_version {range : ByteRange} (plain : range.ok = false) (total size : Int)
    {obj : Blobstore.Object} (named : obj.versionID ≠ "") (body : Bytes) :
    (serveFile .s3 range total size (versionHeader obj) body).header.get "X-Version-Id" =
      obj.versionID := by
  have ne₁ : "X-Version-Id" ≠ "Content-Length" := by decide
  have ne₂ : "X-Version-Id" ≠ "X-Backend" := by decide
  have ne₃ : "X-Version-Id" ≠ "Content-Type" := by decide
  have base : (versionHeader obj).get "X-Version-Id" = obj.versionID := by
    rw [versionHeader, if_neg named, Header.get_set]
  simp only [serveFile, plain, Bool.false_eq_true, if_false]
  split
  · rw [Header.get_set_ne _ _ ne₁, Header.get_set_ne _ _ ne₂, Header.get_set_ne _ _ ne₃, base]
  · rw [Header.get_set_ne _ _ ne₂, Header.get_set_ne _ _ ne₃, base]

theorem error_ne_ok {status : Nat} (failed : status ≠ 200) (text : String) :
    (Handlers.Files.writeError status text).status ≠ 200 := failed

theorem downloadS3_tells {q : Incoming} (route : q.route = .download) (s : Env) :
    (downloadS3 cfg (fileKey q.params) (q.params.query "version")
      (parseRange (q.params.request.header.get "Range"))).Safe Kept
      (answered cfg caller) (Tells q) s := by
  -- nothing is said of a range, or of the latest version
  by_cases whole : (parseRange (q.params.request.header.get "Range")).ok = false ∧
    q.params.query "version" ≠ ""
  · obtain ⟨plain, named⟩ := whole
    unfold downloadS3
    split
    · refine Prog.Safe.bind (Prog.safe_true _ s) fun stat s₁ _ => ?_
      rw [parseRange_refused plain]
      refine Prog.Safe.bind (s3Get_safe _ named s₁) fun result s₂ get => ?_
      cases result with
      | error e => exact tells_download route (error_ne_ok (by decide) _) s₂
      | ok got =>
        obtain ⟨version, stored⟩ := get got.1 got.2 rfl
        refine ⟨fun obj is => ?_, fun _ _ _ _ _ => ⟨got.1, rfl, stored, ?_⟩⟩
        · rw [route] at is
          cases is
        · rw [← version] at named
          exact (serveFile_version rfl _ _ named _).trans version
    · exact tells_download route (error_ne_ok (by decide) _) s
  · refine Prog.Safe.mono ?_ (Prog.safe_true _ s)
    refine fun reply t _ => ⟨fun obj is => ?_, fun _ _ plain named _ => absurd ⟨plain, named⟩ whole⟩
    rw [route] at is
    cases is

theorem downloadFile_tells {q : Incoming} (route : q.route = .download) (s : Env) :
    (downloadFile cfg q.params).Safe Kept (answered cfg caller) (Tells q) s := by
  unfold downloadFile
  dsimp only
  cases backend : backendParam q.params with
  | s3 => exact downloadS3_tells route s
  | hdfs =>
    refine Prog.Safe.mono ?_ (Prog.safe_true _ s)
    refine fun reply t _ => ⟨fun obj is => ?_, fun _ s3 => ?_⟩
    · rw [route] at is
      cases is
    · rw [backend] at s3
      cases s3

/-- **One request.** -/
theorem serve_tells (cfg : Config) (i : Nat) (q : Incoming) (s : Env) :
    (serve cfg q).Safe Kept (answered cfg (i, q)) (Tells q) s := by
  have silent : ∀ x : Handler Reply, q.route ≠ .upload → q.route ≠ .download →
      x.Safe Kept (answered cfg (i, q)) (Tells q) s := by
    intro x other other'
    refine Prog.Safe.mono ?_ (Prog.safe_true _ s)
    exact fun _ _ _ => ⟨fun _ is => absurd is other, fun is => absurd is other'⟩
  unfold serve
  cases route : q.route with
  | upload => exact uploadFile_tells route s
  | download => exact downloadFile_tells route s
  | _ => exact silent _ (by simp [route]) (by simp [route])

/-! ## Every run -/

/-- The requests over a bucket whose versions have names of their own. -/
def bucket (cfg : Config) : System State (Move Incoming Choice Nat) := (versioned cfg).system Named

theorem named {w : State} (h : (bucket cfg).Reachable w) : Named w.env := by
  refine h.invariant (I := fun w => Named w.env) ?_ ?_
  · exact fun w start => start.1
  · intro w mv w' _ distinct step
    cases Machine.stepped step with
    | arrive taken =>
      cases taken
      exact distinct
    | go runs answers =>
      obtain ⟨admitted, responds⟩ := Machine.respond_only.mp answers
      exact (respond_kept distinct admitted responds).1
    | background moved =>
      cases moved
      exact distinct

theorem kept_step {w w' : State} {mv : Move Incoming Choice Nat} (h : (bucket cfg).Reachable w)
    (step : (versioned cfg).step w mv = some w') : Kept w.env w'.env := by
  cases Machine.stepped step with
  | arrive taken =>
    cases taken
    exact List.Subset.refl _
  | go runs answers =>
    obtain ⟨admitted, responds⟩ := Machine.respond_only.mp answers
    exact (respond_kept (named h) admitted responds).2
  | background moved =>
    cases moved
    exact List.Subset.refl _

/-- What every answer has told is so. -/
theorem tells {w : State} (h : (bucket cfg).Reachable w) {q : Incoming} {reply : Reply}
    (answer : (q, .ret reply) ∈ w.procs) :
    Tells q reply w.env := by
  obtain ⟨i, entry⟩ := List.mem_iff_getElem?.mp answer
  exact Machine.safe Named Kept Tells (fun w reached => named reached) (fun _ => List.Subset.refl _)
    (fun _ _ _ => kept_trans)
    (fun _ _ _ reached step => kept_step reached step) (fun _ _ _ _ told kept => told.later kept)
    (fun i q s t _ taken => serve_tells cfg i q t) h i q (.ret reply) entry

/-- A name stands for one content. -/
theorem content_unique (distinct : Named s) {name : String × String} {bytes bytes' : Bytes}
    (h : (name, bytes) ∈ contents s.versions) (h' : (name, bytes') ∈ contents s.versions) :
    bytes = bytes' := by
  obtain ⟨v, mem, same⟩ := List.mem_map.mp h
  obtain ⟨v', mem', same'⟩ := List.mem_map.mp h'
  have one : v = v' := by
    apply Rows.eq_of_key distinct mem mem'
    exact (congrArg Prod.fst same).trans (congrArg Prod.fst same').symm
  rw [one] at same
  exact congrArg Prod.snd (same.symm.trans same')

/-- **A version never changes.** In every run of any number of requests at once, with any call
failing or its answer lost: a download of a version that an upload has reported, if it succeeds,
sends the bytes of that upload and names the version, whatever was uploaded or tagged in between. A
transfer that breaks off after the status is not a success here: it delivers fewer bytes than its
`Content-Length` announces, and the model's answer is the whole of what the handler sets out to
send. -/
theorem version_round_trip {w : State} (h : (bucket cfg).Reachable w) {upload download : Incoming}
    {created sent : Reply} (uploads : upload.route = .upload)
    (uploaded : (upload, .ret created) ∈ w.procs) {obj : Blobstore.Object}
    (reported : created.body = .json (.uploadedObject obj)) (downloads : download.route = .download)
    (downloaded : (download, .ret sent) ∈ w.procs) (backend : backendParam download.params = .s3)
    (whole : (parseRange (download.params.request.header.get "Range")).ok = false)
    (key : fileKey download.params = obj.key)
    (version : download.params.query "version" = obj.versionID) (ok : sent.status = 200) :
    sent.body = .stream upload.params.request.body ∧
    sent.header.get "X-Version-Id" = obj.versionID := by
  obtain ⟨hasVersion, stored⟩ := (tells h uploaded).1 obj uploads reported
  obtain ⟨bytes, body, there, header⟩ :=
    (tells h downloaded).2 downloads backend whole (version ▸ hasVersion) ok
  rw [key, version] at there
  rw [body, content_unique (named h) there stored, header, version]
  exact ⟨rfl, rfl⟩

/-- A download of a version of the object `a`. -/
def downloadOf (version : String) : Incoming where
  route := .download
  params := {
    request := ⟨"GET", "/files/a", Header.empty, [], ""⟩
    query name := if name = "version" then version else ""
    pathValue name := if name = "key" then "a" else ""
    contentLength := 0
    complete := true }

/-- Two uploads of one name, and a download of the first version. -/
def overwritten : List (Move Incoming Choice Nat) :=
  .arrive (uploadOf 1) :: calls 0 3 "v1" ++ .arrive (uploadOf 2) :: calls 1 3 "v2" ++
    .arrive (downloadOf "v1") :: calls 2 2 ""

theorem version_round_trip_overwritten :
    ∃ w sent, (bucket indexedApp).Reachable w ∧ (downloadOf "v1", .ret sent) ∈ w.procs ∧
    (latest w.env.versions "a").map Version.id = some "v2" ∧ sent.body = .stream [1] := by
  have replayed : ∃ w created second obj sent,
    System.replay (versioned indexedApp).step emptyStores overwritten = some w ∧
      w.procs = [(uploadOf 1, .ret created), (uploadOf 2, .ret second),
        (downloadOf "v1", .ret sent)] ∧
      created.body = .json (.uploadedObject obj) ∧ obj.key = "a" ∧ obj.versionID = "v1" ∧
        sent.status = 200 ∧
      (latest w.env.versions "a").map Version.id = some "v2" :=
        ⟨_, _, _, _, _, rfl, rfl, rfl, rfl, rfl, rfl, rfl⟩
  obtain ⟨w, created, second, obj, sent, hw, procs, reported, key, version, ok, newest⟩ := replayed
  have uploaded : (uploadOf 1, .ret created) ∈ w.procs := by simp [procs]
  have downloaded : (downloadOf "v1", .ret sent) ∈ w.procs := by simp [procs]
  have reached : (bucket indexedApp).Reachable w :=
    ⟨emptyStores, ⟨List.nodup_nil, rfl, rfl⟩, System.Runs.of_replay hw⟩
  have body := version_round_trip reached rfl uploaded reported rfl downloaded rfl (by decide)
    (key ▸ rfl) (version ▸ rfl) ok
  exact ⟨w, sent, reached, downloaded, newest, body.1⟩

end OtusApp.Files.Versioning
