import OtusApp.App.Startup
import OtusApp.Laws.Storage.Tables
import OtusApp.Lib.Trace

/-!
# Migrations

The advisory lock is the first statement of every migration, so with it they are serial whatever
becomes of the lock in etcd, and each is applied as a whole or not at all. Of the committed catalog,
every instance and every client sees the shape it had at first or the one the whole script leads to.

No row is lost, and a checksum is the one of the text or not filled in yet. When an instance has
opened the database, the rows that were there when it started have theirs.
-/

namespace OtusApp.Storage.Migration

open Messaging Program Transition Startup

/-- All statements of `migrate`, in order. -/
def script : List Statement := statements ++ [.createOutbox]

/-! ## The script as a whole -/

/-- What the script makes of a row. -/
def Messages.fitted (m : Messages) (r : MessageRow) : MessageRow :=
  { r with
    textHash := if m.textHash ∧ r.textHash ≠ "" then r.textHash else checksum r.text
    idemKey := if m.idemKey then r.idemKey else none }

/-- The table after its columns were added and filled. -/
def Messages.filled (m : Messages) : Messages :=
  ({ m.addTextHash with rows := Storage.migrate m.addTextHash.rows } : Messages).addIdemKey

theorem Messages.filled_eq (m : Messages) :
    m.filled = ⟨true, true, m.idemKeyIdx, m.rows.map m.fitted⟩ := by
  obtain ⟨textHash, idemKey, idemKeyIdx, rows⟩ := m
  -- a row of a table without the column gets the default, and is then filled like one that was
  -- never filled
  have row : ∀ r : MessageRow,
    (if r.textHash = "" then { r with textHash := checksum r.text } else r) =
      { r with textHash := if r.textHash = "" then checksum r.text else r.textHash } := by
    intro r
    by_cases empty : r.textHash = ""
    · rw [if_pos empty, if_pos empty]
    · rw [if_neg empty, if_neg empty]
  cases textHash <;> cases idemKey <;>
    simp [Messages.filled, Messages.addTextHash, Messages.addIdemKey, Storage.migrate, Rows.update,
      Messages.fitted, row]

/-- What the statements after the first make of a catalog with the table. -/
theorem play_altered {m : Messages} {outbox outboxIdx : Bool} {c : Catalog} {work : Option Catalog}
    (is : work.getD c = ⟨some m, outbox, outboxIdx⟩) :
    (sql.play c work script.tail).map (fun work => work.getD c) =
      m.filled.createIdemKeyIdx.map fun m => ⟨some m, true, true⟩ := by
  have column : m.addTextHash.textHash = true := by
    rw [Messages.addTextHash]
    split
    · assumption
    · rfl
  have added : sql.run .addTextHash (work.getD c) = some
      (some ⟨some m.addTextHash, outbox, outboxIdx⟩) := by
    rw [is]
    rfl
  have filled : sql.run .fillTextHash ⟨some m.addTextHash, outbox, outboxIdx⟩ =
      some (some ⟨some { m.addTextHash with rows := Storage.migrate m.addTextHash.rows }, outbox,
        outboxIdx⟩) :=
    if_pos column
  show (sql.play c work [.addTextHash, .fillTextHash, .addIdemKey, .createIdemKeyIdx,
    .createOutbox]).map _ = _
  rw [Serial.play_own added, Serial.play_own filled, Serial.play_own rfl]
  show (sql.play c (some ⟨some m.filled, outbox, outboxIdx⟩)
    [.createIdemKeyIdx, .createOutbox]).map _ = _
  cases indexed : m.filled.createIdemKeyIdx with
  | none =>
    have fails : sql.run .createIdemKeyIdx ⟨some m.filled, outbox, outboxIdx⟩ = none :=
      congrArg (Option.map _) indexed
    rw [Serial.Language.play, Option.getD_some, fails]
    rfl
  | some m' =>
    have ran : sql.run .createIdemKeyIdx ⟨some m.filled, outbox, outboxIdx⟩ =
        some (some ⟨some m', outbox, outboxIdx⟩) := congrArg (Option.map _) indexed
    rw [Serial.play_own ran, Serial.play_own (if_pos (.inr rfl))]
    rfl

/-- The table `messages`, as the first statement leaves it. -/
def Catalog.table (c : Catalog) : Messages := c.messages.getD ⟨false, false, false, []⟩

/-- What the script makes of a catalog. -/
theorem upgrade_eq (c : Catalog) : sql.upgrade script c =
    c.table.filled.createIdemKeyIdx.map fun m => ⟨some m, true, true⟩ := by
  obtain ⟨messages, outbox, outboxIdx⟩ := c
  cases messages with
  | none =>
    rw [Serial.Language.upgrade, script, statements, List.cons_append, Serial.play_own rfl]
    exact play_altered rfl
  | some m =>
    have is : (none : Option Catalog).getD ⟨some m, outbox, outboxIdx⟩ = ⟨some m, outbox,
      outboxIdx⟩ := rfl
    exact play_altered is

/-! ## What becomes of a catalog -/

/-- Which tables, columns and indexes there are. -/
def Catalog.shape (c : Catalog) : Option (Bool × Bool × Bool) × Bool × Bool :=
  (c.messages.map fun m => (m.textHash, m.idemKey, m.idemKeyIdx), c.outbox, c.outboxIdx)

/-- All of them. -/
def Catalog.Complete (c : Catalog) : Prop := c.shape = (some (true, true, true), true, true)

instance (c : Catalog) : Decidable c.Complete := inferInstanceAs (Decidable (_ = _))

/-- The rows of `messages`. -/
def Catalog.rows (c : Catalog) : List MessageRow := c.messages.elim [] Messages.rows

/-- The column with the checksums is there. -/
def Catalog.hashes (c : Catalog) : Bool := c.messages.elim false Messages.textHash

/-- A checksum is the one of the text, or not filled in. -/
def Catalog.Sound (c : Catalog) : Prop :=
  c.hashes = true → ∀ r ∈ c.rows, r.textHash = "" ∨ r.textHash = checksum r.text

/-- The row has its checksum. -/
def Catalog.Filled (c : Catalog) (r : MessageRow) : Prop :=
  c.hashes = true ∧ r.textHash = checksum r.text

/-- The same message, whatever the columns that were added have. -/
def SameMessage (r r' : MessageRow) : Prop :=
  r'.id = r.id ∧ r'.text = r.text ∧ r'.createdAt = r.createdAt

/-- Every row is there, and has its checksum if it had it. -/
structure Onward (c c' : Catalog) : Prop where
  shape : c'.shape = c.shape ∨ c'.Complete
  sound : c.Sound → c'.Sound
  rows : ∀ r ∈ c.rows, ∃ r' ∈ c'.rows, SameMessage r r' ∧ (c.Filled r → c'.Filled r')

theorem SameMessage.refl (r : MessageRow) : SameMessage r r := ⟨rfl, rfl, rfl⟩

theorem SameMessage.trans {r r' r'' : MessageRow} (h : SameMessage r r') (h' : SameMessage r' r'') :
    SameMessage r r'' :=
  ⟨h'.1.trans h.1, h'.2.1.trans h.2.1, h'.2.2.trans h.2.2⟩

theorem Onward.refl (c : Catalog) : Onward c c := ⟨.inl rfl, id, fun r mem => ⟨r, mem, .refl r, id⟩⟩

theorem Onward.trans {c c' c'' : Catalog} (h : Onward c c') (h' : Onward c' c'') :
    Onward c c'' where
  shape := by
    rcases h'.shape with same | complete
    · rcases h.shape with same' | complete
      · exact .inl (same.trans same')
      · exact .inr (same.trans complete)
    · exact .inr complete
  sound sound := h'.sound (h.sound sound)
  rows r mem := by
    obtain ⟨r', mem', same, filled⟩ := h.rows r mem
    obtain ⟨r'', mem'', same', filled'⟩ := h'.rows r' mem'
    exact ⟨r'', mem'', same.trans same', fun is => filled' (filled is)⟩

theorem rows_table (c : Catalog) : c.table.rows = c.rows := by
  obtain ⟨messages, outbox, outboxIdx⟩ := c
  cases messages <;> rfl

theorem hashes_table (c : Catalog) : c.table.textHash = c.hashes := by
  obtain ⟨messages, outbox, outboxIdx⟩ := c
  cases messages <;> rfl

theorem upgrade_some {c c' : Catalog} (h : sql.upgrade script c = some c') :
    c' = ⟨some ⟨true, true, true, c.rows.map c.table.fitted⟩, true, true⟩ := by
  rw [upgrade_eq, Messages.filled_eq, rows_table] at h
  obtain ⟨m, indexed, rfl⟩ := Option.map_eq_some_iff.mp h
  rw [Messages.createIdemKeyIdx] at indexed
  split at indexed
  · next present =>
    cases indexed
    rw [present]
  · obtain ⟨_, same⟩ := Option.ite_none_right_eq_some.mp indexed
    cases same
    rfl

/-- The script fills in every checksum. -/
theorem fitted_filled {c : Catalog} (sound : c.Sound) {r : MessageRow} (mem : r ∈ c.rows) :
    (c.table.fitted r).textHash = checksum r.text := by
  show (if c.table.textHash ∧ r.textHash ≠ "" then r.textHash else checksum r.text) = _
  rw [hashes_table]
  split
  · next had => exact (sound had.1 r mem).resolve_left had.2
  · rfl

theorem upgrade_onward {c c' : Catalog} (h : sql.upgrade script c = some c') : Onward c c' := by
  cases upgrade_some h
  refine ⟨.inr rfl, ?_, ?_⟩
  · intro sound _ r' mem
    obtain ⟨r, old, rfl⟩ := List.mem_map.mp mem
    exact .inr (fitted_filled sound old)
  · intro r mem
    refine ⟨c.table.fitted r, List.mem_map_of_mem mem, ⟨rfl, rfl, rfl⟩, ?_⟩
    rintro ⟨column, filled⟩
    refine ⟨rfl, ?_⟩
    show (if c.table.textHash ∧ r.textHash ≠ "" then r.textHash else checksum r.text) =
      checksum r.text
    rw [filled, ite_self]

/-- What an insertion adds. -/
theorem insert_row {m m' : Messages} {r : MessageRow} (h : m.insert r = some m') :
    m' = { m with rows := m.rows ++ [r] } := by
  obtain ⟨_, same⟩ := Option.ite_none_left_eq_some.mp h
  exact (Option.some.inj same).symm

theorem inserted {w : Insert} {c c' : Catalog} (h : w.run c = some c') :
    ∃ m r, c.messages = some m ∧
    c' = { c with messages := some { m with rows := m.rows ++ [r] } } ∧
    (r.textHash = "" ∨ r.textHash = checksum r.text) := by
  obtain ⟨m, has, rest⟩ := Option.bind_eq_some_iff.mp h
  cases w with
  | plain id text now =>
    obtain ⟨m', added, rfl⟩ := Option.map_eq_some_iff.mp rest
    exact ⟨m, _, has, by rw [insert_row added], .inl rfl⟩
  | keyed id text key now =>
    obtain ⟨_, rest⟩ := Option.ite_none_right_eq_some.mp rest
    obtain ⟨m', added, rfl⟩ := Option.map_eq_some_iff.mp rest
    exact ⟨m, _, has, by rw [insert_row added], .inr rfl⟩

theorem insert_onward {w : Insert} {c c' : Catalog} (h : w.run c = some c') : Onward c c' := by
  obtain ⟨m, r, has, rfl, valid⟩ := inserted h
  obtain ⟨messages, outbox, outboxIdx⟩ := c
  cases has
  refine ⟨.inl rfl, ?_, ?_⟩
  · intro sound column r' mem
    rcases List.mem_append.mp mem with old | new
    · exact sound column r' old
    · cases List.mem_singleton.mp new
      exact valid
  · intro r' mem
    exact ⟨r', List.mem_append_left _ mem, .refl r', id⟩

/-- Only `CREATE TABLE IF NOT EXISTS` finds nothing to do, and a table stays. -/
theorem sql_stable : sql.Stable := by
  intro st w c c' written ran
  obtain ⟨m, r, has, rfl, _⟩ := inserted written
  obtain ⟨messages, outbox, outboxIdx⟩ := c
  cases has
  cases st with
  | createMessages => rfl
  | addTextHash | addIdemKey => cases ran
  | fillTextHash =>
    obtain ⟨_, same⟩ := Option.ite_none_right_eq_some.mp ran
    cases same
  | createIdemKeyIdx =>
    obtain ⟨_, _, same⟩ := Option.map_eq_some_iff.mp ran
    cases same
  | createOutbox =>
    obtain ⟨_, same⟩ := Option.ite_none_right_eq_some.mp ran
    cases same

/-! ## The instances -/

/-- The protocol of `storage.New`: that of its transaction, and the other calls aside. -/
def opening : Protocol Call (fun _ => Bool) Serial.Mode
  | mode, .sql e => Serial.protocol script mode e
  | mode, .parseConfig | mode, .newWithConfig | mode, .ping | mode, .close => some fun _ => mode

theorem execAll_follows (before stmts after : List Statement)
    (is : script = before ++ stmts ++ after) :
    (execAll stmts).Follows opening (fun m ok => m = if ok then .serial (before ++ stmts).length
      else .failing)
      (.serial before.length) := by
  induction stmts generalizing before with
  | nil =>
    show Serial.Mode.serial before.length = .serial (before ++ []).length
    rw [List.append_nil]
  | cons st stmts ih =>
    have entry : script[before.length]? = some st := by
      rw [is, List.append_assoc, List.cons_append, List.getElem?_append_right
        (Nat.le_refl _), Nat.sub_self]
      rfl
    refine ⟨_, if_pos entry, fun (ok : Bool) => ?_⟩
    cases ok with
    | false => exact rfl
    | true =>
      have moved : before ++ [st] ++ stmts = before ++ st :: stmts :=
        List.append_assoc before [st] stmts
      have longer : (before ++ [st]).length = before.length + 1 := List.length_append
      have rest := ih (before ++ [st]) (by rw [moved]; exact is)
      rw [moved, longer] at rest
      exact rest

theorem transaction_follows :
    transaction.Follows opening (fun m ok => m = if ok then .committed else .failing) .begun := by
  refine ⟨_, rfl, fun (locked : Bool) => ?_⟩
  cases locked with
  | false => exact rfl
  | true =>
    refine (execAll_follows [] statements [.createOutbox] rfl).bind ?_
    rintro _ ok rfl
    cases ok with
    | false => exact rfl
    | true =>
      refine ⟨_, rfl, fun (created : Bool) => ?_⟩
      cases created with
      | false => exact rfl
      | true => exact ⟨_, rfl, fun (ok : Bool) => by cases ok <;> exact rfl⟩

theorem migrate_follows :
    migrate.Follows opening (fun m ok => ok = true → m = .ended true) .idle := by
  refine ⟨_, rfl, fun (begun : Bool) => ?_⟩
  cases begun with
  | false => exact nofun
  | true =>
    refine transaction_follows.bind ?_
    rintro _ ok rfl
    cases ok with
    | false => exact ⟨_, rfl, fun _ => nofun⟩
    | true => exact ⟨_, rfl, fun _ _ => rfl⟩

theorem new_follows (targets : List String) :
    (new targets).Follows opening (fun m store => store.isSome → m = .ended true) .idle := by
  refine ⟨_, rfl, fun (parsed : Bool) => ?_⟩
  cases parsed with
  | false => exact nofun
  | true =>
    refine ⟨_, rfl, fun (made : Bool) => ?_⟩
    cases made with
    | false => exact nofun
    | true =>
      refine ⟨_, rfl, fun (pinged : Bool) => ?_⟩
      cases pinged with
      | false => exact ⟨_, rfl, fun _ => nofun⟩
      | true =>
        refine migrate_follows.bind ?_
        intro m ok ended
        cases ok with
        | false => exact ⟨_, rfl, fun _ => nofun⟩
        | true => exact fun _ => ended rfl

/-- The protocol of an instance: the lock in etcd aside. -/
def migrating : Protocol Startup.Call Startup.Call.Result Serial.Mode
  | mode, .etcd _ => some fun _ => mode
  | mode, .pool e => opening mode e

/-- Calls to etcd leave the mode as it is. -/
theorem lock_aside (mode : Serial.Mode) :
    (Coord.lock etcd).Follows migrating (fun m _ => m = mode) mode := by
  refine ⟨_, rfl, fun (acquired : Coord.Acquired) => ?_⟩
  cases acquired with
  | owner | failed => exact rfl
  | waiting => exact ⟨_, rfl, fun _ => rfl⟩

theorem openStore_migrates (configured : Bool) (targets : List String) :
    (openStore configured targets).Follows migrating (fun m store => store.isSome →
      m = .ended true) .idle := by
  have opened :
      ((new targets).lift Startup.Call.pool fun _ r => r : Startup.Code _).Follows migrating
        (fun m store => store.isSome → m = .ended true) .idle := by
    refine Prog.Follows.lift ?_ (new_follows targets)
    intro mode e onward admitted
    exact admitted
  cases configured with
  | false => exact opened
  | true =>
    refine ⟨_, rfl, fun (session : Bool) => ?_⟩
    cases session with
    | false => exact opened
    | true =>
      refine (lock_aside _).bind ?_
      rintro _ ok rfl
      cases ok with
      | false => exact ⟨_, rfl, fun _ => nofun⟩
      | true =>
        refine opened.bind ?_
        intro m store ended
        exact ⟨_, rfl, fun _ => ⟨_, rfl, fun _ => ended⟩⟩

section

variable {configured : Bool} {c : Catalog} {w : Startup.State}

/-- What a call of an instance does to the database. -/
theorem respond_kept {s t : Env} {i : Nat} {e : Startup.Call} {choice : Startup.Choice}
    {r : e.Result} {modes : List Serial.Mode} {mode : Serial.Mode} {onward : e.Result → Serial.Mode}
    (kept : Serial.Kept sql script s.db modes) (found : modes[i]? = some mode)
    (admitted : migrating mode e = some onward) (answers : respond s i e choice = some (r, t)) :
    Serial.Kept sql script t.db (modes.set i (onward r)) ∧ Serial.Moved sql script s.db t.db := by
  have aside : t.db = s.db → onward r = mode →
      Serial.Kept sql script t.db (modes.set i (onward r)) ∧ Serial.Moved sql script s.db t.db := by
    intro same stays
    rw [same, stays, ← (List.getElem?_eq_some_iff.mp found).2, List.set_getElem_self]
    exact ⟨kept, .still rfl rfl⟩
  cases e with
  | etcd e =>
    cases admitted
    cases choice with
    | lock choice =>
      obtain ⟨_, _, same⟩ := Option.map_eq_some_iff.mp answers
      cases same
      exact aside rfl rfl
    | sql choice => cases answers
    | ok ok => cases answers
  | pool e =>
    cases e with
    | sql e =>
      cases choice with
      | sql choice =>
        obtain ⟨_, answered, same⟩ := Option.map_eq_some_iff.mp answers
        cases same
        exact kept.respond found admitted answered
      | lock choice => cases answers
      | ok ok => cases answers
    | parseConfig | newWithConfig | ping | close =>
      cases admitted
      cases choice with
      | ok ok =>
        cases answers
        exact aside rfl rfl
      | lock choice => cases answers
      | sql choice => cases answers

theorem background_kept {s t : Env} {b : Startup.Background} {modes : List Serial.Mode}
    (kept : Serial.Kept sql script s.db modes) (moves : background s b = some t) :
    Serial.Kept sql script t.db modes ∧ Serial.Moved sql script s.db t.db := by
  cases b with
  | expire i =>
    obtain ⟨_, _, rfl⟩ := Option.map_eq_some_iff.mp moves
    exact ⟨kept, .still rfl rfl⟩
  | db b =>
    obtain ⟨_, moved, rfl⟩ := Option.map_eq_some_iff.mp moves
    exact kept.background sql_stable moved

/-- Every instance stands somewhere in its migration. -/
theorem kept (h : (startup configured c).Reachable w) :
    ∃ modes, Serial.Kept sql script w.env.db modes ∧
    Machine.Tracks migrating (fun _ m store => store.isSome → m = .ended true) modes w.procs := by
  refine Machine.tracked (fun _ => Serial.Mode.idle)
    (fun s modes => Serial.Kept sql script s.db modes)
    ?_ ?_ ?_ ?_ ?_ h.unrestricted
  · rintro s rfl
    exact Serial.kept_fresh c
  · intro w targets _
    exact openStore_migrates configured targets
  · rintro w targets t modes - kept ⟨⟩
    exact kept.arrive
  · intro w i choice targets e k r t modes mode onward _ _ _ kept found admitted answers
    exact (respond_kept kept found admitted answers).1
  · intro w b t modes _ _ kept moves
    exact (background_kept kept moves).1

/-- One step commits nothing, a row, or the whole script. -/
theorem step_moved {w' : Startup.State} {mv : Move (List String) Startup.Choice Startup.Background}
    (h : (startup configured c).Reachable w) (step : (machine configured).step w mv = some w') :
    Serial.Moved sql script w.env.db w'.env.db := by
  obtain ⟨modes, kept, tracks⟩ := kept h
  cases Machine.stepped step with
  | arrive taken =>
    cases taken
    exact .still rfl rfl
  | @go i choice targets e k r env runs answers =>
    have entry := Rows.forall₂_getElem? tracks i
    rw [runs] at entry
    generalize found : modes[i]? = mode at entry
    obtain @⟨mode, _, onward, admitted, _⟩ := entry
    exact (respond_kept kept found admitted answers).2
  | background moves => exact (background_kept kept moves).2

theorem Moved.onward {s t : Serial.Store Catalog} (h : Serial.Moved sql script s t) :
    Onward s.committed t.committed := by
  cases h with
  | still same applied =>
    rw [same]
    exact .refl _
  | upgraded i upgraded applied => exact upgrade_onward upgraded
  | written w written applied => exact insert_onward written

/-- The committed catalog is one of a database on which the script is applied at once. -/
theorem startup_simulates (configured : Bool) (c : Catalog) :
    System.Simulates (startup configured c) (Serial.atomic sql script (· = c)) fun w =>
      w.env.db.committed where
  init w begins := by
    rw [begins.1]
    rfl
  step w mv w' reached step := (step_moved reached step).runs

/-- Once a migration was committed, the catalog is complete. -/
theorem complete_of_applied (h : (startup configured c).Reachable w) :
    ∀ i ∈ w.env.db.applied, w.env.db.committed.Complete := by
  refine h.invariant (I := fun w => ∀ i ∈ w.env.db.applied, w.env.db.committed.Complete) ?_ ?_
  · rintro w ⟨begins, _⟩ i mem
    rw [begins] at mem
    cases mem
  · intro w mv w' reached ih step i mem
    have moved := step_moved reached step
    cases moved with
    | still same applied =>
      rw [applied] at mem
      rw [same]
      exact ih i mem
    | upgraded j upgraded applied =>
      rw [upgrade_some upgraded]
      rfl
    | written row written applied =>
      rw [applied] at mem
      exact (insert_onward written).shape.elim (fun same => same.trans (ih i mem)) id

/-- An instance that has opened the database has committed its migration. -/
theorem applied_of_returned (h : (startup configured c).Reachable w) {i : Nat}
    {targets : List String} {store : Postgres}
    (returned : w.procs[i]? = some (targets, .ret (some store))) : i ∈ w.env.db.applied := by
  obtain ⟨modes, kept, tracks⟩ := kept h
  have entry := Rows.forall₂_getElem? tracks i
  rw [returned] at entry
  generalize found : modes[i]? = mode at entry
  obtain @⟨mode, _, ended⟩ := entry
  exact kept.told i mode found (.inr (ended rfl))

/-- What lies between two states of a run, for instance `i`: if it committed its migration
meanwhile, every row of the first has its checksum in the second. -/
structure Meanwhile (i : Nat) (s t : Serial.Store Catalog) : Prop where
  onward : Onward s.committed t.committed
  fills : i ∈ t.applied → i ∈ s.applied ∨ (s.committed.Sound →
    ∀ r ∈ s.committed.rows, ∃ r' ∈ t.committed.rows, SameMessage r r' ∧ t.committed.Filled r')

theorem Meanwhile.trans {i : Nat} {s t u : Serial.Store Catalog} (h : Meanwhile i s t)
    (h' : Meanwhile i t u) :
    Meanwhile i s u where
  onward := h.onward.trans h'.onward
  fills mem := by
    rcases h'.fills mem with earlier | later
    · rcases h.fills earlier with before | filled
      · exact .inl before
      · refine .inr fun sound r old => ?_
        obtain ⟨r', mem', same, has⟩ := filled sound r old
        obtain ⟨r'', mem'', same', keeps⟩ := h'.onward.rows r' mem'
        exact ⟨r'', mem'', same.trans same', keeps has⟩
    · refine .inr fun sound r old => ?_
      obtain ⟨r', mem', same, _⟩ := h.onward.rows r old
      obtain ⟨r'', mem'', same', has⟩ := later (h.onward.sound sound) r' mem'
      exact ⟨r'', mem'', same.trans same', has⟩

theorem Moved.meanwhile {s t : Serial.Store Catalog} (h : Serial.Moved sql script s t) (i : Nat) :
    Meanwhile i s t where
  onward := Moved.onward h
  fills mem := by
    cases h with
    | still same applied => exact .inl (applied ▸ mem)
    | written w written applied => exact .inl (applied ▸ mem)
    | upgraded j upgraded applied =>
      refine .inr fun sound r old => ?_
      rw [upgrade_some upgraded]
      exact ⟨s.committed.table.fitted r, List.mem_map_of_mem old, ⟨rfl, rfl, rfl⟩, rfl,
        fitted_filled sound old⟩

theorem meanwhile {w' : Startup.State} (h : (startup configured c).Reachable w)
    (run : (startup configured c).Runs w w') (i : Nat) :
    Meanwhile i w.env.db w'.env.db :=
  h.run_rel (R := fun w w' => Meanwhile i w.env.db w'.env.db)
    (fun _ => ⟨.refl _, .inl⟩) Meanwhile.trans
    (fun _ _ _ reached step => Moved.meanwhile (step_moved reached step) i) run

theorem onward_start (h : (startup configured c).Reachable w) : Onward c w.env.db.committed := by
  obtain ⟨w₀, begins, run⟩ := h
  have moved := meanwhile (.of_init begins) run 0
  rw [begins.1] at moved
  exact moved.onward

/-- **Migrations are atomic and serial.** Whatever instances start at once, with or without etcd,
and stop on the way, whatever statements fail and whatever commits are left in doubt: between any
two moments the committed catalog goes the way of a database on which the whole script is applied at
once, some number of times, between the insertions. So it keeps its shape or becomes complete, it is
complete once an instance has opened the database, no committed row is lost, and no checksum becomes
wrong. -/
theorem migrations_atomic {w' : Startup.State} (h : (startup configured c).Reachable w)
    (run : (startup configured c).Runs w w') :
    (Serial.atomic sql script (· = c)).Runs w.env.db.committed w'.env.db.committed ∧
    (w'.env.db.committed.shape = w.env.db.committed.shape ∨ w'.env.db.committed.Complete) ∧
    (∀ targets store, (targets, .ret (some store)) ∈ w'.procs → w'.env.db.committed.Complete) ∧
    (∀ r ∈ w.env.db.committed.rows, ∃ r' ∈ w'.env.db.committed.rows, SameMessage r r') ∧
    (w.env.db.committed.Sound → w'.env.db.committed.Sound) := by
  have onward := (meanwhile h run 0).onward
  refine ⟨(startup_simulates configured c).runs h run, onward.shape, ?_, ?_, onward.sound⟩
  · intro targets store returned
    obtain ⟨i, found⟩ := List.getElem?_of_mem returned
    exact complete_of_applied (h.runs run) i (applied_of_returned (h.runs run) found)
  · intro r mem
    obtain ⟨r', mem', same, _⟩ := onward.rows r mem
    exact ⟨r', mem', same⟩

/-- A database from before the checksums, with one message. -/
def early : Catalog := ⟨some ⟨false, false, false, [⟨1, "привет", "", none, 0⟩]⟩, false, false⟩

/-- The calls of `storage.New` up to the commit, all answered well, by instance `i`. -/
def opens (i : Nat) : List (Move (List String) Startup.Choice Startup.Background) :=
  List.replicate 3 (.go i (.ok true)) ++ List.replicate 8 (.go i (.sql (.took true)))

/-- Two instances start without etcd. The commit of the first is left in doubt, and takes effect
once the instance has given up; a row is inserted in between, and the second instance opens the
database. -/
def inDoubt : List (Move (List String) Startup.Choice Startup.Background) :=
  [.arrive [], .arrive ["kafka"]] ++ opens 0 ++
    [.go 0 (.sql (.took false)), .go 0 (.sql (.took true)), .go 0 (.ok true),
      .background (.db (.settle 0 true)),
      .background (.db (.write (.plain 2 "мир" 5)))] ++ opens 1 ++
        [.go 1 (.sql (.took true)), .go 1 (.sql (.took true))]

theorem migrations_atomic_inDoubt :
    ∃ w, (startup false early).Reachable w ∧ w.env.db.applied = [1, 0] ∧
    w.env.db.committed.Complete ∧ ∃ r ∈ w.env.db.committed.rows, r.text = "привет" := by
  have replayed : ∃ w, System.replay (machine false).step ⟨⟨.empty, .fresh early⟩, [], []⟩
    inDoubt = some w ∧
      w.env.db.applied = [1, 0] ∧ w.procs[1]? = some (["kafka"], .ret (some ⟨["kafka"]⟩)) :=
        ⟨_, rfl, rfl, rfl⟩
  obtain ⟨w, run, applied, second⟩ := replayed
  have start : (startup false early).Reachable ⟨⟨.empty, .fresh early⟩, [], []⟩ :=
    .of_init ⟨rfl, rfl, rfl⟩
  have runs : (startup false early).Runs ⟨⟨.empty, .fresh early⟩, [], []⟩ w :=
    System.Runs.of_replay run
  obtain ⟨_, _, complete, rows, _⟩ := migrations_atomic start runs
  obtain ⟨r, mem, _, text, _⟩ := rows ⟨1, "привет", "", none, 0⟩ List.mem_cons_self
  exact ⟨w, start.runs runs, applied, complete _ _ (List.mem_of_getElem? second), r, mem, text⟩

/-- **What is there at the start has its checksum in the end.** When an instance has opened the
database, every row that was committed before it started is there with the checksum of its text,
though instances of any version insert rows meanwhile and migrations of others fail. -/
theorem migration_fills (sound : c.Sound) (h : (startup configured c).Reachable w)
    {w' : Startup.State} (run : (startup configured c).Runs w w') {i : Nat}
    (later : w.procs.length ≤ i) {targets : List String} {store : Postgres}
    (returned : w'.procs[i]? = some (targets, .ret (some store))) {r : MessageRow}
    (mem : r ∈ w.env.db.committed.rows) :
    ∃ r' ∈ w'.env.db.committed.rows, SameMessage r r' ∧ w'.env.db.committed.Filled r' := by
  have new : i ∉ w.env.db.applied := by
    obtain ⟨modes, kept, tracks⟩ := kept h
    intro applied
    have bound := kept.applied i applied
    rw [tracks.length_eq] at bound
    exact absurd bound (Nat.not_lt.mpr later)
  rcases (meanwhile h run i).fills (applied_of_returned (h.runs run) returned) with before | fills
  · exact absurd before new
  · exact fills ((onward_start h).sound sound) r mem

theorem migration_fills_inDoubt : ∃ w, (startup false early).Reachable w ∧
    ∃ r' ∈ w.env.db.committed.rows, r'.text = "привет" ∧ r'.textHash = checksum "привет" := by
  have replayed : ∃ w, System.replay (machine false).step ⟨⟨.empty, .fresh early⟩, [], []⟩
    inDoubt = some w ∧
      w.procs[1]? = some (["kafka"], .ret (some ⟨["kafka"]⟩)) := ⟨_, rfl, rfl⟩
  obtain ⟨w, run, second⟩ := replayed
  have start : (startup false early).Reachable ⟨⟨.empty, .fresh early⟩, [], []⟩ :=
    .of_init ⟨rfl, rfl, rfl⟩
  have runs : (startup false early).Runs ⟨⟨.empty, .fresh early⟩, [], []⟩ w :=
    System.Runs.of_replay run
  have sound : early.Sound := by
    intro column
    cases column
  obtain ⟨r', mem, ⟨_, text, _⟩, _, filled⟩ :=
    migration_fills sound start runs (Nat.zero_le 1) second List.mem_cons_self
  rw [text] at filled
  exact ⟨w, start.runs runs, r', mem, text, filled⟩

end

end OtusApp.Storage.Migration
