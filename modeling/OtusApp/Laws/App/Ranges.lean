import OtusApp.App.Files

/-!
# Partial content

A ranged download makes two calls: one for the size of the file and one for its bytes. The worlds
the two calls find are any two in which the file has the same content, so whatever other requests do
in between is among them.

The object store gives the size of the slice, HDFS the size of the file, and `serveFile` takes
either for the number of bytes it sends. So an answer from S3 describes what it carries, and one
from HDFS exactly where the slice is the file (`range_described`).

A range that selects nothing is refused by the object store, if it comes to see it: an empty object
is read as a whole where neither an offset nor a length is given, and that is the only way to a
partial answer that names no slice (`partial_names_slice`).
-/

namespace OtusApp.Files

open Go Program Handlers.Files

/-! ## What is asked for -/

/-- The last byte a header asks for, where it names one at or after its first. -/
def requestedEnd (header : String) (start : Int) : Option Int :=
  match cutPrefix (trimSpace header) "bytes=" with
  | none => none
  | some raw =>
    match parseInt (trimSpace ((cut raw '-').2.getD "")) with
    | none => none
    | some last => if start ≤ last then some last else none

/-- The last byte to send of a file of `n` bytes. -/
def lastByte (n : Nat) : Option Int → Int
  | none => n - 1
  | some last => min last (n - 1)

/-- The bytes from `a` to `b`, both included. -/
def slice (content : Bytes) (a b : Int) : Bytes := (content.drop a.toNat).take (b - a + 1).toNat

/-- `bytes a-b/n`. -/
def contentRange (a b n : Int) : String :=
  "bytes " ++ formatInt a 10 ++ "-" ++ formatInt b 10 ++ "/" ++ formatInt n 10

/-- An answer that carries the bytes from `a` to `b` of a file, and says so. -/
structure Describes (reply : Reply) (content : Bytes) (a b : Int) : Prop where
  status : reply.status = 206
  body : reply.body = .stream (slice content a b)
  length : reply.header.get "Content-Length" = formatInt (slice content a b).length 10
  range : reply.header.get "Content-Range" = contentRange a b content.length

section Parsing

-- what the texts are does not matter here, and unfolding these is slow
seal trimSpace cutPrefix cut parseInt

/-- A range as `parseRange` hands it on. -/
inductive Accepted (range : ByteRange) : Option Int → Prop
  | toEnd (length : range.length = 0) : Accepted range none
  | upTo (last : Int) (after : range.offset ≤ last) (fits : last < 2 ^ 63)
      (length : range.length = wrap64 (last - range.offset + 1)) : Accepted range (some last)

theorem parseEnd_accepted (start : Int) (endRaw : String) :
    (parseEnd start endRaw).offset = start ∧ (parseEnd start endRaw).ok = true ∧
    Accepted (parseEnd start endRaw)
      (match parseInt (trimSpace endRaw) with
      | none => none
      | some last => if start ≤ last then some last else none) := by
  unfold parseEnd
  by_cases empty : trimSpace endRaw = ""
  · rw [if_pos empty, empty, parseInt_empty]
    exact ⟨rfl, rfl, .toEnd rfl⟩
  · rw [if_neg empty]
    cases parsed : parseInt (trimSpace endRaw) with
    | none => exact ⟨rfl, rfl, .toEnd rfl⟩
    | some last =>
      by_cases before : last < start
      · simp only [if_pos before, if_neg (Int.not_le.mpr before)]
        exact ⟨trivial, trivial, .toEnd rfl⟩
      · have after := Int.not_lt.mp before
        simp only [if_neg before, if_pos after]
        exact ⟨trivial, trivial, .upTo last after (parseInt_fits parsed).2 rfl⟩

theorem parseRange_accepted {header : String} (ok : (parseRange header).ok = true) :
    0 ≤ (parseRange header).offset ∧
      Accepted (parseRange header) (requestedEnd header (parseRange header).offset) := by
  cases found : cutPrefix (trimSpace header) "bytes=" with
  | none => simp only [parseRange, found, Bool.false_eq_true] at ok
  | some raw =>
    cases parsed : parseInt (trimSpace (cut raw '-').1) with
    | none => simp only [parseRange, found, parsed, Bool.false_eq_true] at ok
    | some start =>
      by_cases negative : start < 0
      · simp only [parseRange, found, parsed, if_pos negative, Bool.false_eq_true] at ok
      · have range : parseRange header = parseEnd start ((cut raw '-').2.getD "") := by
          simp only [parseRange, found, parsed, if_neg negative]
        obtain ⟨offset, _, accepted⟩ := parseEnd_accepted start ((cut raw '-').2.getD "")
        rw [range, offset, requestedEnd, found]
        exact ⟨Int.not_lt.mp negative, accepted⟩

end Parsing

/-! ## What is read -/

/-- How a range selects: everything from its offset on, or up to a byte it names. -/
inductive Selects (range : ByteRange) (n : Nat) (b : Int) : Prop
  | rest (short : range.length ≤ 0) (last : b = n - 1)
  | upTo (last : Int) (after : range.offset ≤ last) (fits : last < 2 ^ 63)
      (length : range.length = last - range.offset + 1) (least : b = min last (n - 1))

/-- Where the length leaves `int64`, the range goes up to the last `int64` from the first byte on:
it selects the whole file as well. -/
theorem Accepted.selects {range : ByteRange} {last : Option Int} (h : Accepted range last)
    (start : 0 ≤ range.offset) {n : Nat} (fits : n < 2 ^ 63) :
    Selects range n (lastByte n last) := by
  cases h with
  | toEnd length => exact .rest (by omega) rfl
  | upTo last after bound length =>
    by_cases wraps : last - range.offset + 1 = 2 ^ 63
    · have least : min last ((n : Int) - 1) = n - 1 := by omega
      refine .rest ?_ least
      rw [length, wraps]
      decide
    · refine .upTo last after bound ?_ rfl
      rw [length, wrap64_of_fits (by omega) (by omega)]

variable {content : Bytes} {range : ByteRange} {b : Int}

theorem Selects.bounds (h : Selects range content.length b)
    (inside : range.offset < content.length) :
    range.offset ≤ b ∧ b < content.length := by
  cases h with
  | rest _ last => omega
  | upTo last after _ _ least => omega

theorem slice_rest (a : Int) : content.drop a.toNat = slice content a (content.length - 1) := by
  rw [slice, List.take_of_length_le]
  rw [List.length_drop]
  omega

/-- Past its end a file has no bytes to take. -/
theorem slice_upTo {a last : Int} (start : 0 ≤ a) (after : a ≤ last) :
    (content.drop a.toNat).take (last - a + 1).toNat = slice content a
      (min last (content.length - 1)) := by
  rcases Int.le_total last (content.length - 1) with within | past
  · rw [slice, Int.min_eq_left within]
  · rw [Int.min_eq_right past, ← slice_rest, List.take_of_length_le]
    rw [List.length_drop]
    omega

theorem slice_length {a : Int} (start : 0 ≤ a) (after : a ≤ b) (within : b < content.length) :
    ((slice content a b).length : Int) = b - a + 1 := by
  rw [slice, List.length_take, List.length_drop]
  omega

/-- What HDFS gives to read. -/
theorem Selects.readFrom (h : Selects range content.length b) (start : 0 ≤ range.offset)
    (inside : range.offset < content.length) :
    Hdfsstore.readFrom content range.offset range.length = .ok (slice content range.offset b) := by
  rw [Hdfsstore.readFrom, if_neg (Int.not_lt.mpr (Int.le_of_lt inside))]
  dsimp only
  cases h with
  | rest short last => rw [if_neg (Int.not_lt.mpr short), last, slice_rest]
  | upTo last after _ length least =>
    rw [if_pos (by omega), length, slice_upTo start after, least]

/-- What the object store gives to read. -/
theorem Selects.rangeBytes (h : Selects range content.length b) (start : 0 ≤ range.offset)
    (inside : range.offset < content.length) :
    ∃ selected, Blobstore.getRange range.offset range.length = .ok selected ∧
      rangeBytes content selected = some (slice content range.offset b) := by
  cases h with
  | rest short last =>
    by_cases first : range.offset > 0
    · refine ⟨some (.from_ range.offset), ?_, ?_⟩
      · rw [Blobstore.getRange, if_pos (.inl first), Blobstore.rangeEnd, if_pos short,
          Blobstore.setRange,
          if_neg (by omega), if_pos ⟨first, rfl⟩]
        rfl
      · rw [Files.rangeBytes, if_pos inside, slice_rest, last]
    · obtain zero : range.offset = 0 := by omega
      refine ⟨none, ?_, ?_⟩
      · rw [Blobstore.getRange, if_neg (by omega)]
      · rw [Files.rangeBytes, last, ← slice_rest, zero]
        rfl
  | upTo last after fits length least =>
    have ends : Blobstore.rangeEnd range.offset range.length = last := by
      rw [Blobstore.rangeEnd, if_neg (by omega), length, wrap64, wrap64, Int.bmod_def, Int.bmod_def]
      omega
    refine ⟨some (.slice range.offset last), ?_, ?_⟩
    · rw [Blobstore.getRange, if_pos (.inr (by omega)), ends, Blobstore.setRange, if_neg (by omega),
        if_neg (by omega), if_pos ⟨start, after⟩]
      rfl
    · rw [Files.rangeBytes, if_pos inside, slice_upTo start after, least]

/-! ## What is answered -/

/-- What a call finds: the stores as they are then, and what becomes of it. -/
abbrev World := Env × Choice

/-- How a call is answered there. -/
def World.answer (w : World) (e : Effect) : Option e.Result := (respond w.1 e w.2).map Prod.fst

/-- The file a request is for, in the backend it names. -/
def stored (cfg : Config) (r : Params) (s : Env) : Option Bytes :=
  match backendParam r with
  | .s3 => (select s.versions (fileKey r) (r.query "version")).map Version.body
  | .hdfs => (fileAt s.hdfs (Hdfsstore.full cfg.dir (fileKey r))).map HdfsFile.content

/-- Whether the backend of a request is configured. -/
def configured (cfg : Config) (r : Params) : Bool :=
  match backendParam r with
  | .s3 => cfg.blobs
  | .hdfs => cfg.files

theorem serveFile_describes {backend : Backend} {header : Header} (ok : range.ok = true)
    (start : 0 ≤ range.offset) (after : range.offset ≤ b) (within : b < content.length)
    (fits : content.length < 2 ^ 63) {size : Int}
    (whole : size = (slice content range.offset b).length) :
    Describes (serveFile backend range content.length size header
      (slice content range.offset b)) content range.offset b := by
  have length := slice_length start after within
  have end_eq : wrap64 (range.offset + size) = range.offset + size :=
    wrap64_of_fits (by omega) (by omega)
  have last : wrap64 (wrap64 (range.offset + size) - 1) = b := by
    rw [end_eq, wrap64_of_fits (by omega) (by omega)]
    omega
  have known : ¬ (content.length : Int) = 0 := by omega
  have some : size > 0 := by omega
  refine ⟨?_, rfl, ?_, ?_⟩
  · simp only [serveFile, ok, if_true]
  · simp only [serveFile, if_pos some, Header.get_set]
    rw [whole]
  · rw [serveFile]
    simp only [ok, if_true, if_neg known, if_pos some, last]
    rw [Header.get_set_ne _ _ (by decide), Header.get_set_ne _ _ (by decide), Header.get_set]
    rfl

/-- An answer that describes what it carries gives the number of its bytes. -/
theorem size_of_describes {backend : Backend} {header : Header} {total : Int} {size : Nat}
    {bytes : Bytes} {a : Int} (sent : 0 < size)
    (h : Describes (serveFile backend range total size header bytes) content a b) :
    size = (slice content a b).length := by
  have announced : (serveFile backend range total size header bytes).header.get "Content-Length" =
      formatInt size 10 := by
    simp only [serveFile, if_pos (Int.natCast_pos.mpr sent), Header.get_set]
  exact formatInt_ten_injective (announced.symm.trans h.length)

theorem answer_stat {w : World} {key version : String} {v : Version} (ok : w.2.fate = .ok)
    (found : select w.1.versions key version = some v) :
    w.answer (.s3 (.statObject key version)) = some (.ok (v.info true)) := by
  simp only [World.answer, respond, respondS3, ok, found]
  rfl

theorem answer_get {w : World} {key version : String} {v : Version} (ok : w.2.fate = .ok)
    (found : select w.1.versions key version = some v) {selected : Option Blobstore.Range}
    {bytes : Bytes} (gives : rangeBytes v.body selected = some bytes) :
    w.answer (.s3 (.getObject key version selected)) =
      some (.ok (bytes, { v.info true with size := bytes.length })) := by
  simp only [World.answer, respond, respondS3, ok, found, gives]
  rfl

theorem answer_fileStat {w : World} {path : String} {f : HdfsFile} (ok : w.2.fate = .ok)
    (found : fileAt w.1.hdfs path = some f) :
    w.answer (.hdfs (.stat path)) = some (.ok f.info) := by
  simp only [World.answer, respond, respondHdfs, ok, found]
  rfl

theorem answer_open {w : World} {path : String} {f : HdfsFile} (ok : w.2.fate = .ok)
    (found : fileAt w.1.hdfs path = some f) :
    w.answer (.hdfs (.open_ path)) = some (.ok (f.content, f.info)) := by
  simp only [World.answer, respond, respondHdfs, ok, found]
  rfl

/-- The answer from S3, by the object both calls find and the slice the second one gives. -/
theorem downloadS3_answered {cfg : Config} (blobs : cfg.blobs = true) {key version : String}
    {first second : World} (ok : first.2.fate = .ok) (ok' : second.2.fate = .ok) {v v' : Version}
    (found : select first.1.versions key version = some v)
    (found' : select second.1.versions key version = some v') {selected : Option Blobstore.Range}
    (asks : Blobstore.getRange range.offset range.length = .ok selected) {bytes : Bytes}
    (gives : rangeBytes v'.body selected = some bytes) :
    ∃ header, (downloadS3 cfg key version range).answered World.answer [first, second] =
      some (serveFile .s3 range v.body.length bytes.length header bytes) := by
  refine ⟨versionHeader ⟨v'.key, bytes.length, v'.etag, v'.id, v'.contentType, v'.modified, [],
    false, 0⟩, ?_⟩
  rw [downloadS3, if_pos blobs]
  refine (Prog.answered_call (answer_stat ok found) _ _).trans ?_
  simp only [Blobstore.get, asks]
  exact Prog.answered_call (answer_get ok' found' gives) _ _

/-- The answer from HDFS. -/
theorem downloadHdfs_answered {cfg : Config} (files : cfg.files = true) {key : String}
    {first second : World} (ok : first.2.fate = .ok) (ok' : second.2.fate = .ok) {f f' : HdfsFile}
    (found : fileAt first.1.hdfs (Hdfsstore.full cfg.dir key) = some f)
    (found' : fileAt second.1.hdfs (Hdfsstore.full cfg.dir key) = some f') {bytes : Bytes}
    (gives : Hdfsstore.readFrom f'.content range.offset range.length = .ok bytes) :
    (downloadHdfs cfg key range).answered World.answer [first, second] =
      some (serveFile .hdfs range f.content.length f'.content.length Header.empty bytes) := by
  rw [downloadHdfs, if_pos files]
  refine (Prog.answered_call (answer_fileStat ok found) _ _).trans ?_
  refine (Prog.answered_call (answer_open ok' found') _ _).trans ?_
  simp only [Prog.bind, gives]
  rfl

/-- The range of a request. -/
def askedRange (r : Params) : ByteRange := parseRange (r.request.header.get "Range")

/-- The last byte to send to a request, of a file of `n` bytes. -/
def askedLast (r : Params) (n : Nat) : Int :=
  lastByte n (requestedEnd (r.request.header.get "Range") (askedRange r).offset)

section Described

seal parseRange requestedEnd

/-- **Partial content.** A request for a range that begins inside a stored file is answered with the
bytes it asks for, and told which they are, exactly if they come from S3, or are the whole of the
file. The two calls succeed and find the same content. -/
theorem range_described {cfg : Config} {r : Params} (ready : configured cfg r = true)
    (accepted : (askedRange r).ok = true) {content : Bytes} (fits : content.length < 2 ^ 63)
    (inside : (askedRange r).offset < content.length) {first second : World}
    (ok : first.2.fate = .ok ∧ second.2.fate = .ok)
    (same : stored cfg r first.1 = some content ∧ stored cfg r second.1 = some content) :
    (∃ reply, (downloadFile cfg r).answered World.answer [first, second] = some reply ∧
      Describes reply content (askedRange r).offset (askedLast r content.length)) ↔
    (backendParam r = .s3 ∨
      (askedRange r).offset = 0 ∧ askedLast r content.length = content.length - 1) := by
  obtain ⟨start, accepts⟩ : 0 ≤ (askedRange r).offset ∧ Accepted (askedRange r) _ :=
    parseRange_accepted accepted
  have selects : Selects (askedRange r) content.length (askedLast r content.length) :=
    accepts.selects start fits
  obtain ⟨after, within⟩ := selects.bounds inside
  have length := slice_length start after within
  have describes (backend : Backend) (header : Header) (size : Int)
      (whole : size = (slice content (askedRange r).offset (askedLast r content.length)).length) :
      Describes (serveFile backend (askedRange r) content.length size header
        (slice content (askedRange r).offset (askedLast r content.length))) content
          (askedRange r).offset
        (askedLast r content.length) :=
    serveFile_describes accepted start after within fits whole
  have range : parseRange (r.request.header.get "Range") = askedRange r := rfl
  unfold downloadFile
  rw [range]
  unfold stored configured at *
  cases backend : backendParam r with
  | s3 =>
    simp only [backend] at ready same ⊢
    obtain ⟨v, found, eq⟩ := Option.map_eq_some_iff.mp same.1
    obtain ⟨v', found', eq'⟩ := Option.map_eq_some_iff.mp same.2
    obtain ⟨selected, asks, gives⟩ := selects.rangeBytes start inside
    rw [← eq'] at gives
    obtain ⟨header, answer⟩ := downloadS3_answered ready ok.1 ok.2 found found' asks gives
    refine iff_of_true ⟨_, answer, ?_⟩ (.inl trivial)
    rw [eq, eq']
    exact describes .s3 header _ rfl
  | hdfs =>
    simp only [backend] at ready same ⊢
    obtain ⟨f, found, eq⟩ := Option.map_eq_some_iff.mp same.1
    obtain ⟨f', found', eq'⟩ := Option.map_eq_some_iff.mp same.2
    have gives := selects.readFrom start inside
    rw [← eq'] at gives
    have answer := downloadHdfs_answered ready ok.1 ok.2 found found' gives
    rw [eq, eq'] at answer
    constructor
    · rintro ⟨reply, answered, described⟩
      obtain rfl := Option.some.inj (answer.symm.trans answered)
      have size := size_of_describes (by omega) described
      exact .inr (by omega)
    · intro sized
      obtain ⟨whole, last⟩ := sized.resolve_left nofun
      exact ⟨_, answer, describes .hdfs Header.empty _ (by omega)⟩

end Described

/-- Bytes of a file under the name `a`, in both stores. -/
def holding (content : Bytes) : World :=
  ⟨⟨[⟨"a", "1", content, "", "", [], 0⟩], [⟨"/otus/a", content, content, 0⟩], [], 0, []⟩,
    ⟨.ok, "", "", 0, 0, .client, 0, ⟨0, 0, [], []⟩, [], ⟨0, "", "", "", 0⟩, []⟩⟩

/-- A request for a part of it. -/
def partOf (backend range : String) : Params where
  request := ⟨"GET", "/files/a", Header.empty.set "Range" range, [], ""⟩
  query name := if name = "backend" then backend else ""
  pathValue _ := "a"
  contentLength := 0
  complete := true

/-- An app with both stores. -/
def bothStores : Config := ⟨true, true, false, false, false, "otus", "/otus", fun _ => none, id⟩

/-- Ten bytes. -/
def tenBytes : Bytes := [0, 1, 2, 3, 4, 5, 6, 7, 8, 9]

theorem range_described_s3 :
    ∃ reply, (downloadFile bothStores (partOf "" "bytes=2-4")).answered World.answer
      [holding tenBytes, holding tenBytes] = some reply ∧ Describes reply tenBytes 2 4 :=
  (range_described (r := partOf "" "bytes=2-4") rfl (by decide) (by decide) (by decide)
    ⟨rfl, rfl⟩ ⟨rfl, rfl⟩).mpr (.inl rfl)

/-- **The size of the file for that of the slice.** Of ten bytes in HDFS three are asked for and
sent, under a header that announces ten of them, up to one past the end of the file. -/
theorem hdfs_range_oversized :
    stored bothStores (partOf "hdfs" "bytes=2-4") (holding tenBytes).1 = some tenBytes ∧
    ∃ reply, (downloadFile bothStores (partOf "hdfs" "bytes=2-4")).answered World.answer
      [holding tenBytes, holding tenBytes] = some reply ∧
      reply.status = 206 ∧ reply.body = .stream [2, 3, 4] ∧
      reply.header.get "Content-Length" = "10" ∧
      reply.header.get "Content-Range" = "bytes 2-11/10" :=
  ⟨rfl, _, rfl, rfl, rfl, by decide, by decide⟩

/-! ## No other partial answers -/

/-- The whole object is read where neither an offset nor a length is given. -/
theorem getRange_ok {offset length : Int} {selected : Option Blobstore.Range}
    (h : Blobstore.getRange offset length = .ok selected) :
    (selected = none ∧ offset ≤ 0 ∧ length ≤ 0) ∨
    ∃ slice, selected = some slice ∧
      Blobstore.setRange offset (Blobstore.rangeEnd offset length) = .ok slice := by
  unfold Blobstore.getRange at h
  split at h
  · cases found : Blobstore.setRange offset (Blobstore.rangeEnd offset length) with
    | error e =>
      rw [found] at h
      cases h
    | ok slice =>
      rw [found] at h
      cases h
      exact .inr ⟨slice, rfl, rfl⟩
  · cases h
    exact .inl ⟨rfl, by omega⟩

/-- A ranged read that gives bytes begins inside the object. -/
theorem inside_of_rangeBytes {start end_ : Int} {selected : Blobstore.Range} {bytes : Bytes}
    (asks : Blobstore.setRange start end_ = .ok selected)
    (gives : rangeBytes content (some selected) = some bytes) : start < content.length := by
  unfold Blobstore.setRange at asks
  split at asks
  · next first =>
    cases asks
    have nonempty : content ≠ [] := fun empty => by simp [Files.rangeBytes, empty] at gives
    have positive := List.length_pos_iff.mpr nonempty
    omega
  · split at asks
    · cases asks
      exact (Option.ite_none_right_eq_some.mp gives).1
    · split at asks
      · cases asks
        exact (Option.ite_none_right_eq_some.mp gives).1
      · cases asks

theorem answer_get_cases {w : World} {key version : String} {v : Version}
    (found : select w.1.versions key version = some v) (selected : Option Blobstore.Range) :
    w.answer (.s3 (.getObject key version selected)) = some (.error .client) ∨
    ∃ bytes, rangeBytes v.body selected = some bytes ∧
      w.answer (.s3 (.getObject key version selected)) =
        some (.ok (bytes, { v.info true with size := bytes.length })) := by
  cases fate : w.2.fate with
  | ok =>
    cases gives : rangeBytes v.body selected with
    | none =>
      left
      simp only [World.answer, respond, respondS3, fate, found, gives]
      rfl
    | some bytes => exact .inr ⟨bytes, rfl, answer_get fate found gives⟩
  | failed | lost =>
    left
    simp only [World.answer, respond, respondS3, fate]
    rfl

/-- A partial answer from S3 is what `serveFile` makes of a read that succeeded. -/
theorem downloadS3_partial {cfg : Config} {key version : String} {first second : World}
    (ok : first.2.fate = .ok) {v v' : Version}
    (found : select first.1.versions key version = some v)
    (found' : select second.1.versions key version = some v') {reply : Reply}
    (answer : (downloadS3 cfg key version range).answered World.answer [first, second] = some reply)
    (status : reply.status = 206) :
    range.ok = true ∧ ∃ selected bytes header,
    Blobstore.getRange range.offset range.length = .ok selected ∧
      rangeBytes v'.body selected = some bytes ∧
      reply = serveFile .s3 range v.body.length bytes.length header bytes := by
  rw [downloadS3] at answer
  split at answer
  · next blobs =>
    replace answer := (Prog.answered_call (answer_stat ok found) _ _).symm.trans answer
    simp only [Blobstore.get] at answer
    cases asks : Blobstore.getRange range.offset range.length with
    | error e =>
      simp only [asks] at answer
      cases answer
      cases status
    | ok selected =>
      simp only [asks] at answer
      rcases answer_get_cases found' selected with fails | ⟨bytes, gives, succeeds⟩
      · replace answer := (Prog.answered_call fails _ _).symm.trans answer
        cases answer
        cases status
      · replace answer := (Prog.answered_call succeeds _ _).symm.trans answer
        obtain rfl := (Option.some.inj answer).symm
        refine ⟨?_, selected, bytes, _, rfl, gives, rfl⟩
        by_contra refused
        simp [serveFile, refused] at status
  · cases answer
    cases status

section Named

seal parseRange requestedEnd

/-- The answer names a slice of the object, the one that begins where the request asks. -/
def NamesSlice (r : Params) (content : Bytes) (reply : Reply) : Prop :=
  ∃ a b : Int, 0 ≤ a ∧ a ≤ b ∧ b < content.length ∧ a = (askedRange r).offset ∧
    reply.header.get "Content-Range" = contentRange a b content.length

/-- An object that is read as a whole is answered 206 to a range that was accepted. -/
theorem unranged_answered {cfg : Config} (blobs : cfg.blobs = true) {key version : String}
    {w : World} (ok : w.2.fate = .ok) {v : Version}
    (found : select w.1.versions key version = some v) (accepted : range.ok = true)
    (first : range.offset ≤ 0) (short : range.length ≤ 0) :
    ∃ reply, (downloadS3 cfg key version range).answered World.answer [w, w] = some reply ∧
      reply.status = 206 := by
  have asks : Blobstore.getRange range.offset range.length = .ok none := if_neg (by omega)
  have gives : rangeBytes v.body none = some v.body := rfl
  obtain ⟨header, answer⟩ := downloadS3_answered blobs ok ok found found asks gives
  refine ⟨_, answer, ?_⟩
  simp only [serveFile, accepted, if_true]

/-- **Only real slices.** Every partial answer from S3 names a slice of the object, whatever becomes
of the second call, exactly if the object has a byte, or the range is one that the store is asked
for, or one that is not accepted. The first call succeeds, and the calls find the same content. -/
theorem partial_names_slice {cfg : Config} {r : Params} (s3 : backendParam r = .s3)
    (ready : cfg.blobs = true) {content : Bytes} (fits : content.length < 2 ^ 63) {first : World}
    (ok : first.2.fate = .ok) (holds : stored cfg r first.1 = some content) :
    (∀ second : World, stored cfg r second.1 = some content → ∀ reply,
      (downloadFile cfg r).answered World.answer [first, second] = some reply → reply.status = 206 →
        NamesSlice r content reply) ↔
    (content ≠ [] ∨ 0 < (askedRange r).offset ∨ 0 < (askedRange r).length ∨
      (askedRange r).ok = false) := by
  have range : parseRange (r.request.header.get "Range") = askedRange r := rfl
  unfold downloadFile stored at *
  rw [range]
  simp only [s3] at holds ⊢
  obtain ⟨v, found, eq⟩ := Option.map_eq_some_iff.mp holds
  constructor
  · intro named
    by_contra unranged
    simp only [not_or, Classical.not_not, Int.not_lt, Bool.not_eq_false] at unranged
    obtain ⟨empty, start, short, accepted⟩ := unranged
    obtain ⟨reply, answer, status⟩ := unranged_answered ready ok found accepted start short
    obtain ⟨a, b, _, _, _, _, _⟩ := named first holds reply answer status
    have none : content.length = 0 := List.length_eq_zero_iff.mpr empty
    omega
  · intro ranged second holds' reply answer status
    obtain ⟨v', found', eq'⟩ := Option.map_eq_some_iff.mp holds'
    obtain ⟨accepted, selected, bytes, header, asks, gives, rfl⟩ :=
      downloadS3_partial ok found found' answer status
    obtain ⟨start, accepts⟩ : 0 ≤ (askedRange r).offset ∧ Accepted (askedRange r) _ :=
      parseRange_accepted accepted
    rw [eq'] at gives
    have inside : (askedRange r).offset < content.length := by
      rcases getRange_ok asks with ⟨rfl, first, short⟩ | ⟨_, rfl, set⟩
      · have nonempty : content ≠ [] := by
          rcases ranged with nonempty | offset | length | refused
          · exact nonempty
          · omega
          · omega
          · rw [refused] at accepted
            cases accepted
        have positive := List.length_pos_iff.mpr nonempty
        omega
      · exact inside_of_rangeBytes set gives
    have selects : Selects (askedRange r) content.length (askedLast r content.length) :=
      accepts.selects start fits
    obtain ⟨after, within⟩ := selects.bounds inside
    obtain ⟨selected', asks', gives'⟩ := selects.rangeBytes start inside
    obtain rfl : selected = selected' := Except.ok.inj (asks.symm.trans asks')
    obtain rfl : bytes = slice content (askedRange r).offset (askedLast r content.length) :=
      Option.some.inj (gives.symm.trans gives')
    rw [eq]
    exact ⟨_, _, start, after, within, rfl,
      (serveFile_describes accepted start after within fits rfl).range⟩

end Named

theorem partial_names_slice_tail :
    ∃ reply, (downloadFile bothStores (partOf "" "bytes=7-")).answered World.answer
      [holding tenBytes, holding tenBytes] = some reply ∧ reply.status = 206 ∧
      NamesSlice (partOf "" "bytes=7-") tenBytes reply := by
  have answered : ∃ reply, (downloadFile bothStores (partOf "" "bytes=7-")).answered World.answer
      [holding tenBytes, holding tenBytes] = some reply ∧ reply.status = 206 := ⟨_, rfl, rfl⟩
  obtain ⟨reply, answer, status⟩ := answered
  have nonempty : tenBytes ≠ [] := by decide
  have named :=
    (partial_names_slice (r := partOf "" "bytes=7-") rfl (rfl : bothStores.blobs = true) (by decide)
    (rfl : (holding tenBytes).2.fate = .ok) rfl).mpr (.inl nonempty)
  exact ⟨reply, answer, status, named (holding tenBytes) rfl reply answer status⟩

/-- **A slice of nothing.** An empty object that is asked for from its first byte on. -/
theorem empty_object_partial :
    stored bothStores (partOf "" "bytes=0-") (holding []).1 = some [] ∧
    ∃ reply, (downloadFile bothStores (partOf "" "bytes=0-")).answered World.answer
      [holding [], holding []] = some reply ∧
      reply.status = 206 ∧ reply.header.get "Content-Range" = "bytes 0--1/0" :=
  ⟨rfl, _, rfl, rfl, by decide⟩

end OtusApp.Files
