import OtusApp.Handlers.Storage
import OtusApp.Laws.Resilience.Callers

/-!
# Where the files of HDFS are

The path of a file is the working directory and the base of its name, cleaned. It is inside the
directory unless the base is `.`, `..` or the root (`full_inside`); `uploadFile` rejects two of
these three, and `downloadFile` none. What each handler asks of the client is said for every answer
it may be given.
-/

namespace OtusApp.Hdfsstore

open Go Program Resilience Handlers.Files

/-- A file inside a directory. -/
def Inside (dir target : String) : Prop :=
  ∃ name, target = dir ++ "/" ++ name ∧ Component name ∧ name ≠ "." ∧ name ≠ ".."

/-! ## The path of a file -/

theorem Inside.longer {dir target : String} (h : Inside dir target) :
    dir.toList.length < target.toList.length := by
  obtain ⟨name, rfl, _, _, _⟩ := h
  rw [String.toList_append, String.toList_append, List.length_append, List.length_append]
  have slash : "/".toList.length = 1 := rfl
  omega

theorem plain_of_ne {name : String} (component : Component name) (dot : name ≠ ".")
    (parent : name ≠ "..") :
    Plain name.toList := by
  refine ⟨?_, ?_, ?_⟩
  · exact fun empty => component.1 (String.toList_eq_nil_iff.mp empty)
  · exact fun same => dot (String.toList_injective same)
  · exact fun same => parent (String.toList_injective same)

/-- **The path of a file.** -/
theorem full_inside {dir : String} (h : CleanDir dir) (name : String) :
    Inside dir (full dir name) ↔ pathBase name ≠ "." ∧ pathBase name ≠ ".." ∧
    pathBase name ≠ "/" := by
  have same : ∀ base, (pieces '/' base.toList).foldl (cleanElement true)
      (cleaned dir) = cleaned dir →
        base ≠ "" → ¬Inside dir (pathJoin dir base) := by
    intro base keeps ne inside
    have longer := inside.longer
    rw [h.join ne, keeps, ← h.toList] at longer
    exact Nat.lt_irrefl _ longer
  constructor
  · intro inside
    refine ⟨?_, ?_, ?_⟩
    · intro dot
      rw [full, dot] at inside
      exact same "." rfl (by decide) inside
    · intro parent
      rw [full, parent] at inside
      exact Nat.lt_irrefl _ (Nat.lt_of_lt_of_le inside.longer h.join_parent)
    · intro root
      rw [full, root] at inside
      exact same "/" rfl (by decide) inside
  · rintro ⟨dot, parent, root⟩
    rcases pathBase_cases name with slash | component
    · exact absurd slash root
    · exact ⟨pathBase name, h.join_plain component (plain_of_ne component dot parent),
        component, dot, parent⟩

/-! ## What is asked of the client -/

/-- The file a call works on. -/
def Call.file : Call → Option String
  | .remove target => some target
  | .createFile target => some target
  | .copy target _ => some target
  | .close target => some target
  | .open_ target => some target
  | .stat target => some target
  | _ => none

/-- A call that works on this file, or on none. -/
def On (target : String) (call : Call) : Prop := ∀ file, call.file = some file → file = target

theorem on_none {target : String} {call : Call} (none : call.file = none) : On target call := by
  intro file is
  rw [none] at is
  cases is

theorem on_some {target : String} {call : Call} (same : call.file = some target) :
    On target call := by
  intro file is
  rw [same] at is
  exact (Option.some.inj is).symm

theorem closeWithRetry_on (target : String) : (closeWithRetry target).All (On target) := by
  have own : retrier.All (On target) := by
    constructor
    · exact ⟨on_none rfl, fun _ => trivial⟩
    · exact ⟨on_none rfl, fun _ => trivial⟩
    · exact ⟨on_none rfl, fun _ => trivial⟩
    · exact ⟨on_none rfl, fun _ => trivial⟩
    · exact fun delay => ⟨on_none rfl, fun _ => trivial⟩
  have calls : ∀ vars, (close target vars).All (On target) := fun _ =>
    ⟨on_some rfl, fun _ => trivial⟩
  exact Policy.do_all closePolicy own calls ()

theorem putClose_on (name target : String) (written : Int) :
    (putClose name target written).All (On target) := by
  refine Prog.all_bind (closeWithRetry_on target) fun closed => ?_
  obtain ⟨err, _⟩ := closed
  cases err with
  | some e => trivial
  | none => exact ⟨on_none rfl, fun _ => trivial⟩

theorem put_on (dir name : String) (body : Upload) :
    (put dir name body).All (On (full dir name)) := by
  refine ⟨on_some rfl, fun _ => ⟨on_some rfl, fun created => ?_⟩⟩
  cases created with
  | error e => trivial
  | ok _ =>
    refine ⟨on_some rfl, fun copied => ?_⟩
    cases copied with
    | error e => exact ⟨on_some rfl, fun _ => trivial⟩
    | ok written => exact putClose_on name _ written

theorem stat_on (dir name : String) : (stat dir name).All (On (full dir name)) := by
  refine ⟨on_some rfl, fun answer => ?_⟩
  cases answer <;> trivial

theorem get_on (dir name : String) (offset length : Int) :
    (get dir name offset length).All (On (full dir name)) := by
  refine ⟨on_some rfl, fun answer => ?_⟩
  cases answer with
  | error e => trivial
  | ok opened =>
    simp only [Prog.bind]
    split <;> trivial

/-! ## The handlers -/

/-- Every file a call works on is inside the directory. -/
def Stays (dir : String) : Effect → Prop
  | .hdfs call => ∀ file, call.file = some file → Inside dir file
  | _ => True

theorem hdfs_stays {α : Type} {dir target : String} {code : Code α} (inside : Inside dir target)
    (on : code.All (On target)) : (hdfs code).All (Stays dir) :=
  Prog.all_lift (on.mono fun call same file is => by rw [same file is]; exact inside)

theorem s3_stays {α : Type} (dir : String) (code : Blobstore.Code α) : (s3 code).All (Stays dir) :=
  Prog.all_lift (Prog.all_of_forall (fun _ => trivial) code)

theorem now_stays (dir : String) : now.All (Stays dir) := ⟨trivial, fun _ => trivial⟩

theorem indexFile_stays (dir : String) (cfg : Config) (doc : Search.FileDoc) :
    (indexFile cfg doc).All (Stays dir) := by
  unfold indexFile
  split
  · exact ⟨trivial, fun _ => trivial⟩
  · trivial

theorem uploadHdfs_stays (cfg : Config) (name : String) (tags : Blobstore.Tags) (body : Upload) :
    (uploadHdfs cfg name tags body).All (Stays cfg.dir) ↔
    (cfg.files = true → Inside cfg.dir (full cfg.dir name)) := by
  unfold uploadHdfs
  split
  · next files =>
    constructor
    · exact fun all _ => all.1 _ rfl
    · intro inside
      refine Prog.all_bind (hdfs_stays (inside files) (put_on ..)) fun stored => ?_
      cases stored with
      | error e => trivial
      | ok file =>
        exact Prog.all_bind (now_stays _) fun t =>
          Prog.all_bind (indexFile_stays ..) fun _ => trivial
  · next none => exact ⟨fun _ files => absurd files none, fun _ => trivial⟩

theorem uploadS3_stays (dir : String) (cfg : Config) (r : Params) (name : String)
    (tags : Blobstore.Tags) (body : Upload) : (uploadS3 cfg r name tags body).All (Stays dir) := by
  unfold uploadS3
  split
  · refine Prog.all_bind (s3_stays ..) fun stored => ?_
    cases stored with
    | error e => trivial
    | ok obj =>
      exact Prog.all_bind (now_stays _) fun t => Prog.all_bind (indexFile_stays ..) fun _ => trivial
  · trivial

theorem downloadHdfs_stays (cfg : Config) (key : String) (range : ByteRange) :
    (downloadHdfs cfg key range).All (Stays cfg.dir) ↔
    (cfg.files = true → Inside cfg.dir (full cfg.dir key)) := by
  unfold downloadHdfs
  split
  · next files =>
    constructor
    · exact fun all _ => all.1 _ rfl
    · intro inside
      refine Prog.all_bind (hdfs_stays (inside files) (stat_on ..)) fun described => ?_
      refine Prog.all_bind (hdfs_stays (inside files) (get_on ..)) fun got => ?_
      cases got <;> trivial
  · next none => exact ⟨fun _ files => absurd files none, fun _ => trivial⟩

theorem downloadS3_stays (dir : String) (cfg : Config) (key version : String) (range : ByteRange) :
    (downloadS3 cfg key version range).All (Stays dir) := by
  unfold downloadS3
  split
  · refine Prog.all_bind (s3_stays ..) fun described => Prog.all_bind (s3_stays ..) fun got => ?_
    cases got <;> trivial
  · trivial

/-- A request goes to HDFS. -/
def ToHdfs (cfg : Config) (r : Params) : Prop := backendParam r = .hdfs ∧ cfg.files = true

/-- The name of an uploaded file is rejected where its base is none. -/
theorem uploadName_some {r : Params} {name : String} (h : uploadName r = some name) :
    pathBase (trimSpace (r.query "name")) = name ∧ name ≠ "." ∧ name ≠ "/" := by
  simp only [uploadName] at h
  split at h
  · cases h
  · next accepted =>
    obtain rfl := Option.some.inj h
    exact ⟨rfl, fun dot => accepted (.inr (.inl dot)), fun root => accepted (.inr (.inr root))⟩

theorem uploadName_parent {r : Params} (h : pathBase (trimSpace (r.query "name")) = "..") :
    uploadName r = some ".." := by
  simp only [uploadName, h]
  decide

theorem lastElement_parent {path : String} : LastElement ".." path ↔ pathBase path = ".." := by
  have component : Component ".." := ⟨by decide, by decide⟩
  refine ⟨pathBase_of_last component, fun base => last_of_pathBase ?_ component base⟩
  rintro rfl
  exact absurd base (by decide)

/-- The base of a key is the directory itself, or the root. -/
theorem pathBase_ne_iff {path : String} : pathBase path ≠ "." ∧ pathBase path ≠ "/" ↔
    (∃ c ∈ path.toList, c ≠ '/') ∧ ¬LastElement "." path := by
  have component : Component "." := ⟨by decide, by decide⟩
  constructor
  · rintro ⟨dot, root⟩
    refine ⟨?_, fun last => dot (pathBase_of_last component last)⟩
    by_contra slashes
    refine root
      (pathBase_eq_root.mpr ⟨?_, fun c mem => by_contra fun other => slashes ⟨c, mem, other⟩⟩)
    rintro rfl
    exact dot rfl
  · rintro ⟨⟨c, mem, other⟩, last⟩
    refine ⟨fun dot => last (last_of_pathBase ?_ component dot), fun root => ?_⟩
    · rintro rfl
      cases mem
    · exact other ((pathBase_eq_root.mp root).2 c mem)

/-- **Names.** With a clean working directory, an upload stays inside it exactly where the last
element of the name is not `..`, and a download where the key has an element, and its last one is
neither `.` nor `..`. -/
theorem names_inside (cfg : Config) (clean : CleanDir cfg.dir) (r : Params) :
    ((uploadFile cfg r).All (Stays cfg.dir) ↔
      (ToHdfs cfg r → ¬LastElement ".." (trimSpace (r.query "name")))) ∧
    ((downloadFile cfg r).All (Stays cfg.dir) ↔
      (ToHdfs cfg r → (∃ c ∈ (r.pathValue "key").toList, c ≠ '/') ∧
        ¬LastElement "." (r.pathValue "key") ∧
        ¬LastElement ".." (r.pathValue "key"))) := by
  constructor
  · rw [lastElement_parent]
    unfold uploadFile
    cases accepted : uploadName r with
    | none =>
      refine ⟨fun _ _ parent => ?_, fun _ => trivial⟩
      rw [uploadName_parent parent] at accepted
      cases accepted
    | some name =>
      obtain ⟨base, dot, root⟩ := uploadName_some accepted
      cases backend : backendParam r with
      | s3 =>
        refine ⟨fun _ toHdfs => ?_, fun _ => uploadS3_stays ..⟩
        rw [ToHdfs, backend] at toHdfs
        exact Backend.noConfusion toHdfs.1
      | hdfs =>
        simp only [uploadHdfs_stays, full_inside clean, ToHdfs, backend, true_and]
        rw [← base, pathBase_idem, base]
        exact forall_congr' fun _ => ⟨fun h => h.2.1, fun parent => ⟨dot, parent, root⟩⟩
  · unfold downloadFile
    cases backend : backendParam r with
    | s3 =>
      refine ⟨fun _ toHdfs => ?_, fun _ => downloadS3_stays ..⟩
      rw [ToHdfs, backend] at toHdfs
      exact Backend.noConfusion toHdfs.1
    | hdfs =>
      simp only [downloadHdfs_stays, full_inside clean, ToHdfs, backend, true_and]
      have root := @pathBase_ne_iff (r.pathValue "key")
      rw [fileKey, pathBase_idem, lastElement_parent]
      refine forall_congr' fun _ => ?_
      rw [← and_assoc, and_right_comm, root, and_assoc]

/-- An app with a file store. -/
def withFiles : Config := ⟨false, true, false, false, false, "", "/otus/files", fun _ => none, id⟩

/-- A request for a file in HDFS. -/
def named (name : String) : Params where
  request := ⟨"", "", Header.empty, [], ""⟩
  query param := if param = "backend" then "hdfs" else if param = "name" then name else ""
  pathValue _ := name
  contentLength := 0
  complete := true

theorem withFiles_clean : CleanDir withFiles.dir := ⟨by decide, by decide, by decide⟩

theorem names_inside_report :
    (uploadFile withFiles (named " a/report.txt ")).All (Stays "/otus/files") ∧
    (downloadFile withFiles (named "report.txt/")).All (Stays "/otus/files") := by
  have upload := (names_inside withFiles withFiles_clean (named " a/report.txt ")).1
  have download := (names_inside withFiles withFiles_clean (named "report.txt/")).2
  refine ⟨upload.mpr fun _ last => ?_, download.mpr fun _ => ?_⟩
  · exact absurd (lastElement_parent.mp last) (by decide)
  · have plain :=
      pathBase_ne_iff.mp (show pathBase "report.txt/" ≠ "." ∧
        pathBase "report.txt/" ≠ "/" by decide)
    exact ⟨plain.1, plain.2, fun last => absurd (lastElement_parent.mp last) (by decide)⟩

/-- **The parent of the directory.** An upload under the name `..` is accepted, and what it removes
first is the directory's parent; a download of `..` opens it. -/
theorem parent_removed : CleanDir withFiles.dir ∧ uploadName (named "..") = some ".." ∧
    (uploadFile withFiles (named "..")).Makes (.hdfs (.remove "/otus")) ∧
    (downloadFile withFiles (named "..")).Makes (.hdfs (.open_ "/otus")) ∧
    ¬Inside withFiles.dir "/otus" := by
  refine ⟨withFiles_clean, by decide, .now _, .later _ _ (.error .client) (.now _),
    fun inside => ?_⟩
  exact absurd inside.longer (by decide)

end OtusApp.Hdfsstore
