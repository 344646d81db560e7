import OtusApp.App.Files

/-!
# What the file handlers write

Of the routes only the upload and the tags write to a store (`serve_reads`), and a call that does
not write leaves the stores as they are (`respond_reads`).
-/

namespace OtusApp.Files

open Go Messaging Program Transition Handlers.Files
open Blobstore (Tags)

/-- A call that writes to the object store. -/
def s3Writes : Blobstore.Call → Bool
  | .putObject .. => true
  | .putObjectTagging .. => true
  | _ => false

/-- A call that writes to the file system. -/
def hdfsWrites : Hdfsstore.Call → Bool
  | .remove _ => true
  | .createFile _ => true
  | .copy .. => true
  | .close _ => true
  | _ => false

/-- A call that writes to one of the stores. -/
def writes : Effect → Bool
  | .s3 call => s3Writes call
  | .hdfs call => hdfsWrites call
  | .indexFile _ => true
  | _ => false

/-- A call that only reads. -/
def Reads (e : Effect) : Prop := writes e = false

/-! ## The stores -/

/-- The object store's code only reads. -/
def S3Reads (call : Blobstore.Call) : Prop := s3Writes call = false

/-- The file store's code only reads. -/
def HdfsReads (call : Hdfsstore.Call) : Prop := hdfsWrites call = false

theorem s3Stat_reads (key version : String) : (Blobstore.stat key version).All S3Reads := by
  refine ⟨rfl, fun answer => ?_⟩
  cases answer <;> trivial

theorem s3Get_reads (key version : String) (offset length : Int) :
    (Blobstore.get key version offset length).All S3Reads := by
  unfold Blobstore.get
  split
  · trivial
  · refine ⟨rfl, fun answer => ?_⟩
    cases answer <;> trivial

theorem s3List_reads (lead : String) : (Blobstore.list lead).All S3Reads := by
  refine ⟨rfl, fun answer => ?_⟩
  cases answer <;> trivial

theorem s3Versions_reads (key : String) : (Blobstore.versions key).All S3Reads := by
  refine ⟨rfl, fun answer => ?_⟩
  cases answer <;> trivial

theorem findLoop_reads (key value : String) (found objects : List Blobstore.Object) :
    (Blobstore.findLoop key value found objects).All S3Reads := by
  induction objects generalizing found with
  | nil => trivial
  | cons obj rest ih =>
    refine ⟨rfl, fun answer => ?_⟩
    cases answer with
    | error e => exact ih found
    | ok t =>
      change (if _ then _ else _ : Blobstore.Code _).All S3Reads
      split
      · exact ih _
      · exact ih found

theorem findByTag_reads (key value lead : String) :
    (Blobstore.findByTag key value lead).All S3Reads := by
  refine Prog.all_bind (s3List_reads lead) fun listed => ?_
  cases listed with
  | error e => trivial
  | ok objects => exact Prog.all_bind (findLoop_reads key value [] objects) fun _ => trivial

theorem hdfsStat_reads (dir name : String) : (Hdfsstore.stat dir name).All HdfsReads := by
  refine ⟨rfl, fun answer => ?_⟩
  cases answer <;> trivial

theorem hdfsGet_reads (dir name : String) (offset length : Int) :
    (Hdfsstore.get dir name offset length).All HdfsReads := by
  unfold Hdfsstore.get
  refine ⟨rfl, fun answer => ?_⟩
  cases answer with
  | error e => trivial
  | ok opened =>
    simp only [Prog.bind]
    split <;> trivial

theorem hdfsList_reads (dir : String) : (Hdfsstore.list dir).All HdfsReads := by
  refine ⟨rfl, fun answer => ?_⟩
  cases answer <;> trivial

theorem s3_reads {α : Type} {code : Blobstore.Code α} (h : code.All S3Reads) :
    (s3 code).All Reads :=
  Prog.all_lift h

theorem hdfs_reads {α : Type} {code : Hdfsstore.Code α} (h : code.All HdfsReads) :
    (hdfs code).All Reads :=
  Prog.all_lift h

/-! ## Which routes write -/

theorem ask_reads {e : Effect} (reads : Reads e) : (Prog.ask e : Handler e.Result).All Reads :=
  ⟨reads, fun _ => trivial⟩

/-- The end of a handler that tells how long it took. -/
theorem elapsed_reads (start : Instant) (f : Int → Reply) :
    (elapsedMS start >>= fun ms => (pure (f ms) : Handler Reply)).All Reads :=
  ⟨rfl, fun _ => trivial⟩

theorem searchIndex_reads (cfg : Config) (query : String) (limit : Int) (start : Instant) :
    (searchIndex cfg query limit start).All Reads := by
  unfold searchIndex
  split
  · refine Prog.all_bind (ask_reads rfl) fun answer => ?_
    cases answer with
    | none => exact trivial
    | some res => exact elapsed_reads start _
  · exact trivial

theorem searchScan_reads (cfg : Config) (query : String) (limit : Int) (start : Instant) :
    (searchScan cfg query limit start).All Reads := by
  unfold searchScan
  split
  · refine Prog.all_bind (ask_reads rfl) fun answer => ?_
    cases answer with
    | none => exact trivial
    | some rows => exact elapsed_reads start _
  · exact trivial

theorem searchTable_reads (cfg : Config) (query : String) (limit : Int) (start : Instant) :
    (searchTable cfg query limit start).All Reads := by
  unfold searchTable
  split
  · refine Prog.all_bind (ask_reads rfl) fun answer => ?_
    cases answer with
    | none => exact trivial
    | some msgs => exact elapsed_reads start _
  · exact trivial

theorem searchMessages_reads (cfg : Config) (r : Params) : (searchMessages cfg r).All Reads := by
  unfold searchMessages
  dsimp only
  -- a condition on a variable is not evaluated while the goal is unified
  generalize trimSpace (r.query "q") = query
  generalize (if r.query "engine" = "" then "elasticsearch" else r.query "engine") = engine
  split
  · exact trivial
  · refine Prog.all_bind (ask_reads rfl) fun start => ?_
    split
    · exact searchIndex_reads ..
    · split
      · exact searchScan_reads ..
      · split
        · exact searchTable_reads ..
        · exact trivial

theorem recentDay_reads (day : String) : (recentDay day).All Reads := by
  unfold recentDay
  split
  · exact Prog.all_bind (ask_reads rfl) fun _ => trivial
  · exact trivial

theorem listEvents_reads (cfg : Config) (r : Params) : (listEvents cfg r).All Reads := by
  unfold listEvents
  split
  · refine Prog.all_bind (recentDay_reads _) fun day =>
      Prog.all_bind (ask_reads rfl) fun answer => ?_
    cases answer <;> exact trivial
  · exact trivial

theorem getEvent_reads (cfg : Config) (r : Params) : (getEvent cfg r).All Reads := by
  unfold getEvent
  split
  · split
    · exact trivial
    · refine Prog.all_bind (ask_reads rfl) fun answer => ?_
      cases answer <;> exact trivial
  · exact trivial

theorem downloadHdfs_reads (cfg : Config) (key : String) (range : ByteRange) :
    (downloadHdfs cfg key range).All Reads := by
  unfold downloadHdfs
  split
  · refine Prog.all_bind (hdfs_reads (hdfsStat_reads ..)) fun stat => ?_
    refine Prog.all_bind (hdfs_reads (hdfsGet_reads ..)) fun got => ?_
    cases got <;> exact trivial
  · exact trivial

theorem downloadS3_reads (cfg : Config) (key version : String) (range : ByteRange) :
    (downloadS3 cfg key version range).All Reads := by
  unfold downloadS3
  split
  · refine Prog.all_bind (s3_reads (s3Stat_reads ..)) fun stat => ?_
    refine Prog.all_bind (s3_reads (s3Get_reads ..)) fun got => ?_
    cases got <;> exact trivial
  · exact trivial

theorem downloadFile_reads (cfg : Config) (r : Params) : (downloadFile cfg r).All Reads := by
  unfold downloadFile
  split
  · exact downloadHdfs_reads ..
  · exact downloadS3_reads ..

theorem listIndex_reads (cfg : Config) (r : Params) (tag : String × String) (start : Instant) :
    (listIndex cfg r tag start).All Reads := by
  unfold listIndex
  split
  · refine Prog.all_bind (ask_reads rfl) fun answer => ?_
    cases answer with
    | none => exact trivial
    | some res => exact elapsed_reads start _
  · exact trivial

theorem listHdfs_reads (cfg : Config) (start : Instant) : (listHdfs cfg start).All Reads := by
  unfold listHdfs
  split
  · refine Prog.all_bind (hdfs_reads (hdfsList_reads ..)) fun listed => ?_
    cases listed with
    | error e => exact trivial
    | ok files => exact elapsed_reads start _
  · exact trivial

theorem listS3_reads (cfg : Config) (r : Params) (tag : String × String) (start : Instant) :
    (listS3 cfg r tag start).All Reads := by
  unfold listS3
  split
  · have found : (if tag.1 ≠ "" then Blobstore.findByTag tag.1 tag.2 (r.query "prefix")
        else Blobstore.list (r.query "prefix")).All S3Reads := by
      split
      · exact findByTag_reads ..
      · exact s3List_reads _
    refine Prog.all_bind (s3_reads found) fun listed => ?_
    cases listed with
    | error e => exact trivial
    | ok objects => exact elapsed_reads start _
  · exact trivial

theorem listFiles_reads (cfg : Config) (r : Params) : (listFiles cfg r).All Reads := by
  unfold listFiles
  dsimp only
  refine Prog.all_bind (ask_reads rfl) fun start => ?_
  generalize (if r.query "source" ≠ "" then r.query "source"
    else if (splitTag (r.query "tag")).1 ≠ "" ∧ cfg.search then "es"
    else (backendParam r).name) = source
  split
  · exact listIndex_reads ..
  · split
    · exact listHdfs_reads ..
    · exact listS3_reads ..

theorem listVersions_reads (cfg : Config) (r : Params) : (listVersions cfg r).All Reads := by
  unfold listVersions
  split
  · refine Prog.all_bind (s3_reads (s3Versions_reads ..)) fun listed => ?_
    cases listed <;> exact trivial
  · exact trivial

/-- The routes that write. -/
def Route.writes : Route → Bool
  | .upload => true
  | .tags => true
  | _ => false

/-- **Which requests write.** A request to another route only reads, whatever it is answered. -/
theorem serve_reads (cfg : Config) (q : Incoming) (h : q.route.writes = false) :
    (serve cfg q).All Reads := by
  obtain ⟨route, r⟩ := q
  unfold serve
  cases route with
  | search => simp only [searchMessages_reads]
  | events => exact listEvents_reads cfg r
  | event => exact getEvent_reads cfg r
  | list => exact listFiles_reads cfg r
  | download => exact downloadFile_reads cfg r
  | versions => exact listVersions_reads cfg r
  | upload | tags => cases h

/-! ## What reading leaves -/

/-- A call of the object store that only reads leaves everything as it is. -/
theorem respondS3_reads {s t : Env} {call : Blobstore.Call} {c : Choice} {r : call.Result}
    (reads : S3Reads call) (h : respondS3 s call c = some (r, t)) : t = s := by
  cases call with
  | putObject | putObjectTagging => cases reads
  | getObject key version range =>
    simp only [respondS3] at h
    split at h
    · split at h <;> cases h <;> rfl
    · cases h
      rfl
  | statObject | getObjectTagging | listObjects =>
    simp only [respondS3] at h
    split at h <;> cases h <;> rfl

theorem respondHdfs_reads {s t : Env} {call : Hdfsstore.Call} {c : Choice} {r : call.Result}
    (reads : HdfsReads call) (h : respondHdfs s call c = some (r, t)) : t = s := by
  cases call with
  | remove | createFile | copy | close => cases reads
  | open_ | stat | readDir | err | wait =>
    simp only [respondHdfs] at h
    split at h <;> cases h <;> rfl
  | now | retried | exhausted | draw =>
    cases h
    rfl

/-- **Reading.** A call that only reads leaves everything as it is. -/
theorem respond_reads {s t : Env} {e : Effect} {c : Choice} {r : e.Result} (reads : Reads e)
    (h : respond s e c = some (r, t)) : t = s := by
  cases e with
  | s3 call => exact respondS3_reads reads h
  | hdfs call => exact respondHdfs_reads reads h
  | indexFile doc => cases reads
  | searchMessages | searchFiles | recent | byID | eventRows | searchTable =>
    simp only [respond, given] at h
    split at h <;> cases h <;> rfl
  | now =>
    cases h
    rfl

end OtusApp.Files
