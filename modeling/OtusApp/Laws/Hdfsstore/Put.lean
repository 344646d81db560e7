import OtusApp.Laws.App.Files
import OtusApp.Laws.Hdfsstore.Names

/-!
# What an upload leaves

`Put` removes the file, creates it again, copies the body and closes it. Run by itself over the file
system, with every call answered in any way, it keeps every other file (`put_frame`). Under its own
name a run that fails leaves what the failing call left there: the file that could not be removed,
nothing, or the beginning of the body.

So whether an upload that fails keeps what was there depends on what becomes of the first two calls:
the file must have withstood its removal, or there was none and none was created (`upload_keeps`).
Otherwise the bytes that are left may still happen to be the old ones, but for no fates of the calls
are they always.
-/

namespace OtusApp.Hdfsstore

open Go Program Files Resilience

variable {s t : Env} {files : List HdfsFile} {path target : String} {call : Call} {c : Choice}

/-! ## Files -/

theorem fileAt_removeAt (files : List HdfsFile) (path : String) :
    fileAt (removeAt files path) path = none := by
  rw [fileAt, List.find?_eq_none]
  intro f mem same
  rw [removeAt, List.mem_filter] at mem
  exact of_decide_eq_true mem.2 (of_decide_eq_true same)

theorem fileAt_removeAt_ne (ne : path ≠ target) :
    fileAt (removeAt files target) path = fileAt files path := by
  rw [fileAt, removeAt, List.find?_filter]
  refine congrArg (List.find? · files) (funext fun f => ?_)
  by_cases same : f.path = path
  · simp [same, ne]
  · simp [same]

theorem fileAt_writeAt (s : Env) (path : String) (content written : Bytes) :
    fileAt (writeAt s path content written).hdfs path = some ⟨path, content, written, s.clock⟩ := by
  simp [fileAt, writeAt]

theorem fileAt_writeAt_ne (ne : path ≠ target) (content written : Bytes) :
    fileAt (writeAt s target content written).hdfs path = fileAt s.hdfs path := by
  refine Eq.trans ?_ (fileAt_removeAt_ne ne)
  apply List.find?_cons_of_neg
  simpa using Ne.symm ne

/-- What a reader gets of a file. -/
def content (s : Env) (path : String) : Option Bytes := (fileAt s.hdfs path).map HdfsFile.content

theorem content_writeAt (s : Env) (path : String) (visible written : Bytes) :
    content (writeAt s path visible written) path = some visible := by
  rw [content, fileAt_writeAt]
  rfl

/-- A call that works on one file leaves the others. -/
theorem respondHdfs_frame {r : call.Result} (on : On target call)
    (h : respondHdfs s call c = some (r, t)) (ne : path ≠ target) :
    fileAt t.hdfs path = fileAt s.hdfs path := by
  by_cases reads : HdfsReads call
  · rw [respondHdfs_reads reads h]
  · cases call with
    | remove file =>
      obtain rfl := on file rfl
      simp only [respondHdfs] at h
      split at h <;> cases h
      · exact fileAt_removeAt_ne ne
      · rfl
      · exact fileAt_removeAt_ne ne
    | createFile file =>
      obtain rfl := on file rfl
      simp only [respondHdfs] at h
      split at h <;> cases h
      · exact fileAt_writeAt_ne ne _ _
      · exact fileAt_writeAt_ne ne _ _
      · rfl
    | copy file body =>
      obtain rfl := on file rfl
      simp only [respondHdfs] at h
      split at h
      · cases h
        rfl
      · cases (Option.ite_none_right_eq_some.mp h).2
        exact fileAt_writeAt_ne ne _ _
      · cases h
        exact fileAt_writeAt_ne ne _ _
    | close file =>
      obtain rfl := on file rfl
      simp only [respondHdfs] at h
      split at h <;> cases h
      · exact fileAt_writeAt_ne ne _ _
      · rfl
    | _ => exact (reads rfl).elim

/-- **Other files.** -/
theorem put_frame {dir name : String} {body : Upload} {choices : List Choice}
    {result : Except Err File}
    (runs : (put dir name body).run respondHdfs s choices = some (result, t))
    (ne : path ≠ full dir name) :
    fileAt t.hdfs path = fileAt s.hdfs path :=
  (put_on dir name body).run (J := fun t => fileAt t.hdfs path = fileAt s.hdfs path)
    (fun _ _ _ _ _ on answers same => (respondHdfs_frame on answers ne).trans same) runs rfl

/-! ## The file itself -/

/-- A file whose closing fails stays as it is. -/
theorem putClose_failed {name : String} {written : Int} {choices : List Choice} {e : Err}
    (runs : (putClose name target written).run respondHdfs s choices = some (.error e, t)) :
    t = s := by
  have reading : ∀ (own : Call), HdfsReads own → ∀ u, u = s →
      (Prog.ask own : Code own.Result).Safe Eq (fun s e r t => ∃ c, respondHdfs s e c = some (r, t))
        (fun _ t => t = s) u := by
    rintro own reads _ rfl _ rfl r t ⟨c, answers⟩
    exact respondHdfs_reads reads answers
  have own : retrier.Keeps Eq (fun s e r t => ∃ c, respondHdfs s e c = some (r, t)) (· = s) :=
    ⟨reading _ rfl, reading _ rfl, reading _ rfl, reading _ rfl, fun _ => reading _ rfl⟩
  have calls : ∀ vars u, u = s →
      (close target vars).Safe Eq (fun s e r t => ∃ c, respondHdfs s e c = some (r, t))
        (fun v t => v.1 ≠ none → t = s) u := by
    rintro _ _ rfl _ rfl r t ⟨c, answers⟩
    simp only [respondHdfs] at answers
    split at answers <;> cases answers
    · exact fun failed => absurd rfl failed
    · exact fun _ => rfl
  have safe : (putClose name target written).Safe Eq
      (fun s e r t => ∃ c, respondHdfs s e c = some (r, t))
        (fun result t => ∀ e, result = .error e → t = s) s := by
    refine (closePolicy.do_safe own calls () rfl).bind fun closed u kept => ?_
    obtain ⟨err, _⟩ := closed
    cases err with
    | some e => exact fun _ _ => kept (Option.some_ne_none e)
    | none =>
      intro _ _ _ _ _ _ impossible
      cases impossible
  exact safe.run runs e rfl

/-- What is left of a file after its creation, when its copy or its closing fails. -/
def remains (body : Upload) : List Choice → Bytes
  | [] => []
  | copying :: rest =>
    if copying.fate = .ok then body.bytes.take copying.visible
    else
      let copied := body.bytes.take copying.copied
      if rest.head?.map Choice.fate = some .ok then copied else copied.take copying.visible

/-- Closing a file makes all of it visible, or leaves it as it is. -/
theorem content_closed {visible written : Bytes} {closing : Choice} {err : Option Err}
    (h : respondHdfs (writeAt s target visible written) (.close target) closing = some (err, t)) :
    content t target = some (if closing.fate = .ok then written else visible) := by
  simp only [respondHdfs, fileAt_writeAt] at h
  split at h
  · next ok same =>
    cases same
    cases h
    rw [content_writeAt, if_pos ok]
  · next failed =>
    cases h
    rw [content_writeAt, if_neg fun ok => failed _ ok rfl]

theorem putCopy_failed {name : String} {body : Upload} {choices : List Choice} {e : Err}
    {f : HdfsFile} (there : fileAt s.hdfs target = some f)
    (runs : (putCopy name target body).run respondHdfs s choices = some (.error e, t)) :
    content t target = some (remains body choices) := by
  cases choices with
  | nil => cases runs
  | cons copying rest =>
    obtain ⟨copied, u, answers, runs⟩ := Prog.run_call runs
    simp only [respondHdfs, there] at answers
    split at answers
    · next none => cases none
    · next ok _ =>
      obtain ⟨_, same⟩ := Option.ite_none_right_eq_some.mp answers
      cases same
      obtain rfl := putClose_failed runs
      rw [content_writeAt, remains, if_pos ok]
    · next failed =>
      cases answers
      cases rest with
      | nil => cases runs
      | cons closing rest =>
        obtain ⟨closed, v, answers, ends⟩ := Prog.run_call runs
        cases ends
        rw [content_closed answers, remains, if_neg failed]
        simp only [List.head?_cons, Option.map_some, Option.some.injEq]

/-! ## The whole upload -/

/-- What an upload that fails leaves under a name that was free. -/
def leftover (body : Upload) (creation : Choice) (rest : List Choice) : Option Bytes :=
  match creation.fate with
  | .ok => some (remains body rest)
  | .failed => none
  | .lost => some []

/-- What is there when the file is created: the old file where it could not be removed, and nothing
otherwise. -/
theorem removed_or {removal : Choice} {r : Except Err Unit}
    (h : respondHdfs s (.remove target) removal = some (r, t)) :
    (content s target ≠ none ∧ removal.fate = .failed ∧ t = s) ∨
    (¬(content s target ≠ none ∧ removal.fate = .failed) ∧ fileAt t.hdfs target = none) := by
  simp only [respondHdfs] at h
  split at h
  · next ok =>
    cases h
    exact .inr ⟨fun kept => Fate.noConfusion (ok.symm.trans kept.2), fileAt_removeAt ..⟩
  · next failed =>
    cases h
    by_cases there : content s target = none
    · exact .inr ⟨fun kept => kept.1 there, Option.map_eq_none_iff.mp there⟩
    · exact .inl ⟨there, failed, rfl⟩
  · next lost =>
    cases h
    exact .inr ⟨fun kept => Fate.noConfusion (lost.symm.trans kept.2), fileAt_removeAt ..⟩

/-- **What a failed upload leaves.** -/
theorem put_failed {dir name : String} {body : Upload} {removal creation : Choice}
    {rest : List Choice} {e : Err}
    (runs : (put dir name body).run respondHdfs s (removal :: creation :: rest) = some
      (.error e, t)) :
    content t (full dir name) =
      if content s (full dir name) ≠ none ∧ removal.fate = .failed then content s (full dir name)
      else leftover body creation rest := by
  obtain ⟨_, u, answers, runs⟩ := Prog.run_call runs
  obtain ⟨created, v, creates, runs⟩ := Prog.run_call runs
  simp only [respondHdfs] at creates
  rcases removed_or answers with ⟨there, failed, rfl⟩ | ⟨gone, free⟩
  · rw [if_pos ⟨there, failed⟩]
    obtain ⟨f, file⟩ := Option.ne_none_iff_exists'.mp fun none =>
      there (Option.map_eq_none_iff.mpr none)
    rw [file] at creates
    split at creates
    · next none => cases none
    · next none => cases none
    · cases creates
      cases runs
      rfl
  · rw [if_neg gone, leftover]
    rw [free] at creates
    split at creates
    · next ok _ =>
      cases creates
      rw [putCopy_failed (fileAt_writeAt ..) runs, ok]
    · next lost _ =>
      cases creates
      cases runs
      rw [content_writeAt, lost]
    · next notOk notLost =>
      cases creates
      cases runs
      rw [content, free]
      cases fate : creation.fate with
      | ok => exact absurd rfl (notOk fate)
      | failed => rfl
      | lost => exact absurd rfl (notLost fate)

/-! ## Reading the file again -/

/-- What becomes of a call; of a copy, how many bytes were handed over, and how many of them can be
read. -/
def answering (fate : Fate) (copied visible : Nat) : Choice where
  fate := fate
  version := ""
  etag := ""
  copied := copied
  visible := visible
  closeErr := .client
  source := 0
  result := ⟨0, 0, [], []⟩
  events := []
  event := ⟨0, "", "", "", 0⟩
  messages := []

/-- What `Get` gives when the file system answers; none is an error. -/
def got (s : Env) (dir name : String) (offset length : Int) : Option Bytes :=
  ((get dir name offset length).run respondHdfs s [answering .ok 0 0]).bind fun r =>
    r.1.toOption.map Prod.fst

theorem got_eq (s : Env) (dir name : String) (offset length : Int) :
    got s dir name offset length = (content s (full dir name)).bind fun bytes =>
      (readFrom bytes offset length).toOption := by
  rw [content, got, get, Prog.ask_bind]
  cases file : fileAt s.hdfs (full dir name) with
  | none =>
    have opened : respondHdfs s (.open_ (full dir name)) (answering .ok 0 0) = some
        (.error .client, s) := by
      simp only [respondHdfs, answering, file]
    rw [Prog.run_answered opened]
    rfl
  | some f =>
    have opened : respondHdfs s (.open_ (full dir name)) (answering .ok 0 0) = some
        (.ok (f.content, f.info), s) := by
      simp only [respondHdfs, answering, file]
    rw [Prog.run_answered opened, Option.map_some, Option.bind_some]
    simp only
    cases readFrom f.content offset length <;> rfl

/-- The whole file is read without an offset and a length. -/
theorem got_whole (s : Env) (dir name : String) :
    got s dir name 0 0 = content s (full dir name) := by
  rw [got_eq]
  cases content s (full dir name) with
  | none => rfl
  | some bytes =>
    have whole : readFrom bytes 0 0 = .ok bytes := by
      rw [readFrom, if_neg (by omega)]
      rfl
    rw [Option.bind_some, whole]
    rfl

/-- `Get` gives the same exactly if the content is the same. -/
theorem got_same_iff {dir name : String} :
    (∀ offset length, got t dir name offset length = got s dir name offset length) ↔
      content t (full dir name) = content s (full dir name) := by
  constructor
  · intro reads
    rw [← got_whole, ← got_whole, reads 0 0]
  · intro same offset length
    rw [got_eq, got_eq, same]

/-! ## When the file is kept -/

/-- A run of `Put` that fails: whether there was a file under the name, and what became of `Remove`
and of `CreateFile`. -/
structure Fails (dir name : String) (there : Bool) (removal creation : Fate) (s t : Env) :
    Prop where
  file : (content s (full dir name)).isSome = there
  run : ∃ body removing creating rest e, removing.fate = removal ∧ creating.fate = creation ∧
    (put dir name body).run respondHdfs s (removing :: creating :: rest) = some (.error e, t)

/-- There was a file, and its removal failed without an effect; or there was none, and the creation
of one failed without an effect. -/
def Kept (there : Bool) (removal creation : Fate) : Prop :=
  there = true ∧ removal = .failed ∨ there = false ∧ creation = .failed

theorem Fails.kept {dir name : String} {there : Bool} {removal creation : Fate}
    (h : Fails dir name there removal creation s t) (kept : Kept there removal creation) :
    content t (full dir name) = content s (full dir name) := by
  obtain ⟨file, body, removing, creating, rest, e, removes, creates, runs⟩ := h
  rw [put_failed runs, removes]
  rcases kept with ⟨rfl, rfl⟩ | ⟨rfl, rfl⟩
  · rw [if_pos ⟨Option.isSome_iff_ne_none.mp file, rfl⟩]
  · have none : content s (full dir name) = none :=
      Option.isSome_eq_false_iff.mp file |> Option.isNone_iff_eq_none.mp
    rw [none, if_neg (fun h => h.1 rfl), leftover, creates]

/-- A file that is created is there, without a byte. -/
theorem createFile_answers (s : Env) (target : String) (c : Choice) :
    (∃ t, respondHdfs s (.createFile target) c = some (.error .client, t)) ∨
    respondHdfs s (.createFile target) c = some (.ok (), writeAt s target [] []) := by
  simp only [respondHdfs]
  split
  · exact .inr rfl
  · exact .inl ⟨_, rfl⟩
  · exact .inl ⟨_, rfl⟩

/-- Whatever becomes of the first two calls, an upload can fail that has no byte. -/
theorem put_fails (s : Env) (dir name : String) (removal creation : Choice) :
    ∃ rest e t, (put dir name ⟨[], false⟩).run respondHdfs s (removal :: creation :: rest) = some
      (.error e, t) := by
  obtain ⟨_, u, removes⟩ : ∃ r u,
    respondHdfs s (.remove (full dir name)) removal = some (r, u) := by
    simp only [respondHdfs]
    cases removal.fate <;> exact ⟨_, _, rfl⟩
  rw [put, Prog.ask_bind]
  rcases createFile_answers u (full dir name) creation with ⟨v, refused⟩ | created
  · refine ⟨[], .client, v, ?_⟩
    rw [Prog.run_answered removes, Prog.ask_bind, Prog.run_answered refused]
    rfl
  · have copies : respondHdfs (writeAt u (full dir name) [] []) (.copy (full dir name) ⟨[], false⟩)
        (answering .failed 0 0) =
          some (.error .client, writeAt (writeAt u (full dir name) [] [])
            (full dir name) [] []) := by
      simp [respondHdfs, answering, fileAt_writeAt]
    refine ⟨[answering .failed 0 0, answering .failed 0 0], .client,
      writeAt (writeAt u (full dir name) [] []) (full dir name) [] [], ?_⟩
    rw [Prog.run_answered removes, Prog.ask_bind, Prog.run_answered created]
    exact (Prog.run_answered copies _ _).trans rfl

/-- Of a body without a byte none is left. -/
theorem remains_empty (rest : List Choice) : remains ⟨[], false⟩ rest = [] := by
  cases rest with
  | nil => rfl
  | cons copying rest => simp only [remains, List.take_nil, ite_self]

theorem leftover_empty (creation : Choice) (rest : List Choice) :
    leftover ⟨[], false⟩ creation rest = if creation.fate = .failed then none else some [] := by
  rw [leftover, remains_empty]
  cases creation.fate <;> rfl

/-- **A failed upload.** Of every upload, whatever its calls are answered, the other files stay as
they are. And for every name, with a file under it or without, and whatever becomes of `Remove` and
`CreateFile`: all uploads that fail, of any body over any content, leave `Get` as it was exactly
where the file is kept. -/
theorem upload_keeps (dir name : String) :
    (∀ (s t : Env) (body : Upload) (choices : List Choice) (result : Except Err File),
      (put dir name body).run respondHdfs s choices = some (result, t) →
        ∀ path, path ≠ full dir name → fileAt t.hdfs path = fileAt s.hdfs path) ∧
    ∀ (there : Bool) (removal creation : Fate),
      (∀ s t, Fails dir name there removal creation s t →
        ∀ offset length, got t dir name offset length = got s dir name offset length) ↔
      Kept there removal creation := by
  refine ⟨fun s t body choices result runs path ne => put_frame runs ne,
    fun there removal creation => ?_⟩
  constructor
  · intro keeps
    by_contra lost
    -- over a file of one byte, or over none, an upload without a byte does not leave what was there
    obtain ⟨s, file, gone, differs⟩ : ∃ s, (content s (full dir name)).isSome = there ∧
        ¬ (content s (full dir name) ≠ none ∧ removal = .failed) ∧
        (if creation = .failed then none else some []) ≠ content s (full dir name) := by
      cases there with
      | true =>
        have holds : content (writeAt ⟨[], [], [], 0, []⟩ (full dir name) [1] [1])
          (full dir name) = some [1] :=
          content_writeAt ..
        refine ⟨_, congrArg Option.isSome holds, fun kept => lost (.inl ⟨rfl, kept.2⟩), ?_⟩
        rw [holds]
        split <;> simp
      | false =>
        refine ⟨⟨[], [], [], 0, []⟩, rfl, fun kept => kept.1 rfl, ?_⟩
        rw [if_neg fun failed => lost (.inr ⟨rfl, failed⟩)]
        exact Option.some_ne_none _
    obtain ⟨rest, e, t, runs⟩ :=
      put_fails s dir name (answering removal 0 0) (answering creation 0 0)
    have same := got_same_iff.mp (keeps s t ⟨file, _, _, _, rest, e, rfl, rfl, runs⟩)
    rw [put_failed runs, leftover_empty] at same
    exact differs ((if_neg gone).symm.trans same)
  · exact fun kept s t fails => got_same_iff.mpr (fails.kept kept)

/-- A file of three bytes. -/
def threeBytes : Env := ⟨[], [⟨"/otus/files/a", [1, 2, 3], [1, 2, 3], 0⟩], [], 0, []⟩

/-- The file could not be removed, and so not be created. -/
theorem upload_keeps_undeletable : ∃ t,
    (put "/otus/files" "a" ⟨[9], true⟩).run respondHdfs threeBytes
      [answering .failed 0 0, answering .ok 0 0] =
      some (.error .client, t) ∧ got t "/otus/files" "a" 0 0 = some [1, 2, 3] := by
  have runs : (put "/otus/files" "a" ⟨[9], true⟩).run respondHdfs threeBytes
      [answering .failed 0 0, answering .ok 0 0] = some (.error .client, threeBytes) := rfl
  have fails : Fails "/otus/files" "a" true .failed .ok threeBytes threeBytes :=
    ⟨rfl, _, _, _, _, _, rfl, rfl, runs⟩
  have keeps :=
    ((upload_keeps "/otus/files" "a").2 true .failed .ok).mpr (.inl ⟨rfl, rfl⟩) _ _ fails 0 0
  exact ⟨threeBytes, runs, keeps.trans rfl⟩

/-- **Cut short.** The client goes away after one byte: the upload fails, and of the three bytes
that were there before it nothing is left but that one. Where the file cannot be created, none
is. -/
theorem upload_destroys :
    got threeBytes "/otus/files" "a" 0 0 = some [1, 2, 3] ∧
    (∃ t, (put "/otus/files" "a" ⟨[9], false⟩).run respondHdfs threeBytes
        [answering .ok 0 0, answering .ok 0 0, answering .failed 1 0, answering .ok 0 0] = some
          (.error .client, t) ∧
      got t "/otus/files" "a" 0 0 = some [9]) ∧
    ∃ t, (put "/otus/files" "a" ⟨[9], true⟩).run respondHdfs threeBytes
        [answering .ok 0 0, answering .failed 0 0] = some (.error .client, t) ∧
      got t "/otus/files" "a" 0 0 = none :=
  ⟨rfl, ⟨_, rfl, rfl⟩, ⟨_, rfl, rfl⟩⟩

end OtusApp.Hdfsstore
