import OtusApp.Lib.Protocol
import OtusApp.Lib.Rows

/-!
# Transactions under one lock

A store with transactions. A transaction reads what is committed until a statement of its own
changes or locks something, and its own version from then on; other clients write only while no
transaction has one. Statements that were sent may take effect without the client being told, a
transaction may be ended by the store at any time, and one whose commit was sent without an answer
is in doubt: the store ends it one way or the other.

Nothing keeps the versions of two transactions apart: the later commit would win. If each client
takes the lock of the store first, then executes the statements of one script in order and then
commits (`protocol`), the store is one on which the whole script is applied at once, between the
writes of the others (`atomic`).
-/

namespace Serial

open Program Transition

/-- What the statements and the writes of other clients do. A statement fails, leaves everything as
it is, or leads to a version of the transaction's own. -/
structure Language (D St W : Type) where
  run : St → D → Option (Option D)
  write : W → D → Option D

/-- An open transaction: its own version, and whether its commit was sent without an answer. -/
structure Tx (D : Type) where
  work : Option D
  inDoubt : Bool

/-- The store. `applied` are the clients of which a transaction was committed. -/
structure Store (D : Type) where
  committed : D
  txs : List (Nat × Tx D)
  lock : Option Nat
  applied : List Nat

/-- A call of a client, answered by whether it succeeded. -/
inductive Call (St : Type)
  | begin
  | lock
  | exec (st : St)
  | commit
  | rollback

/-- How a call ends: it took effect, and the client was told so or not; or it had none. -/
inductive Choice
  | took (told : Bool)
  | failed

/-- What happens besides. -/
inductive Background (W : Type)
  | settle (i : Nat) (apply : Bool)
  | abort (i : Nat)
  | write (w : W)

variable {D St W : Type}

namespace Store

def fresh (d : D) : Store D := ⟨d, [], none, []⟩

/-- The transaction of a client. -/
def tx (s : Store D) (i : Nat) : Option (Tx D) := (s.txs.find? fun p => p.1 = i).map Prod.snd

def put (s : Store D) (i : Nat) (t : Tx D) : Store D :=
  { s with txs := (i, t) :: s.txs.filter fun p => p.1 ≠ i }

/-- The transaction of a client is over, and its lock is free. -/
def drop (s : Store D) (i : Nat) : Store D :=
  { s with txs := s.txs.filter fun p => p.1 ≠ i, lock := if s.lock = some i then none else s.lock }

def apply (s : Store D) (i : Nat) (t : Tx D) : Store D :=
  { s.drop i with committed := t.work.getD s.committed, applied := i :: s.applied }

/-- How a call of client `i` is answered. -/
def respond (l : Language D St W) (s : Store D) (i : Nat) :
    Call St → Choice → Option (Bool × Store D)
  | .begin, .took told => if s.tx i = none then some (told, s.put i ⟨none, false⟩) else none
  | .lock, .took told =>
    (s.tx i).bind fun _ =>
      if s.lock = none ∨ s.lock = some i then some (told, { s with lock := some i }) else none
  | .exec st, .took told =>
    (s.tx i).bind fun t =>
      if t.inDoubt then none
      else (l.run st (t.work.getD s.committed)).map fun work =>
        (told, s.put i { t with work := work <|> t.work })
  | .commit, .took told =>
    (s.tx i).bind fun t =>
      if t.inDoubt then none
      else if told then some (true, s.apply i t)
      else some (false, s.put i { t with inDoubt := true })
  | .rollback, .took told =>
    match s.tx i with
    | none => some (told, s)
    | some t => some (told, if t.inDoubt then s else s.drop i)
  | _, .failed => some (false, s)

/-- What moves by itself. -/
def background (l : Language D St W) (s : Store D) : Background W → Option (Store D)
  | .settle i apply =>
    (s.tx i).bind fun t =>
      if t.inDoubt then some (if apply then s.apply i t else s.drop i) else none
  | .abort i => (s.tx i).bind fun t => if t.inDoubt then none else some (s.drop i)
  | .write w =>
    if s.txs.all fun p => p.2.work.isNone then
      (l.write w s.committed).map fun d => { s with committed := d }
    else none

end Store

/-! ## The script at once -/

/-- What a transaction has made of `d` by some statements, from its own version on. -/
def Language.play (l : Language D St W) (d : D) : Option D → List St → Option (Option D)
  | work, [] => some work
  | work, st :: rest =>
    (l.run st (work.getD d)).bind fun changed => l.play d (changed <|> work) rest

/-- The whole script in one step. -/
def Language.upgrade (l : Language D St W) (script : List St) (d : D) : Option D :=
  (l.play d none script).map fun work => work.getD d

/-- A step of the store on which the script is applied at once. -/
inductive Event (W : Type)
  | upgrade
  | write (w : W)

/-- The store on which the script is applied at once. -/
def atomic (l : Language D St W) (script : List St) (init : D → Prop) : System D (Event W) :=
  .ofStep init fun d e =>
    match e with
    | .upgrade => l.upgrade script d
    | .write w => l.write w d

/-- A statement that found nothing to do finds nothing to do after a write of another client. -/
def Language.Stable (l : Language D St W) : Prop :=
  ∀ st w d d', l.write w d = some d' → l.run st d = some none → l.run st d' = some none

variable {l : Language D St W} {script : List St}

theorem play_append (d : D) (work : Option D) (first rest : List St) :
    l.play d work (first ++ rest) = (l.play d work first).bind fun work => l.play d work rest := by
  induction first generalizing work with
  | nil => rfl
  | cons st first ih =>
    rw [List.cons_append, Language.play, Language.play]
    cases l.run st (work.getD d) with
    | none => rfl
    | some changed => exact ih _

/-- A statement that leads to a version of the transaction's own. -/
theorem play_own {d own : D} {work : Option D} {st : St}
    (ran : l.run st (work.getD d) = some (some own)) (rest : List St) :
    l.play d work (st :: rest) = l.play d (some own) rest := by
  rw [Language.play, ran]
  rfl

/-- One more statement. -/
theorem play_take_succ {d : D} {work changed : Option D} {n : Nat} {st : St}
    (entry : script[n]? = some st) (played : l.play d none (script.take n) = some work)
    (ran : l.run st (work.getD d) = some changed) :
    l.play d none (script.take (n + 1)) = some (changed <|> work) := by
  rw [List.take_add_one, entry, play_append, played, Option.bind_some, Option.toList_some,
    Language.play, ran]
  rfl

/-- A version of the transaction's own is not given up. -/
theorem play_some (d own : D) (stmts : List St) : l.play d (some own) stmts ≠ some none := by
  induction stmts generalizing own with
  | nil => nofun
  | cons st stmts ih =>
    rw [Language.play]
    cases l.run st ((some own).getD d) with
    | none => nofun
    | some changed =>
      cases changed with
      | none => exact ih own
      | some own' => exact ih own'

theorem play_write (stable : l.Stable) {w : W} {d d' : D} (written : l.write w d = some d')
    {stmts : List St} (played : l.play d none stmts = some none) :
    l.play d' none stmts = some none := by
  induction stmts with
  | nil => rfl
  | cons st stmts ih =>
    rw [Language.play, Option.getD_none] at played ⊢
    cases ran : l.run st d with
    | none =>
      rw [ran] at played
      cases played
    | some changed =>
      rw [ran] at played
      cases changed with
      | some own => exact absurd played (play_some d own stmts)
      | none =>
        rw [stable st w d d' written ran]
        exact ih played

/-! ## Clients that take the lock first -/

/-- Where a client stands: before its transaction, in it without the lock, with the lock and so many
statements of the script behind it, after an error, after its commit, or at the end. -/
inductive Mode
  | idle
  | begun
  | serial (n : Nat)
  | failing
  | committed
  | ended (ok : Bool)

/-- The lock, the script in order, the commit; and a rollback in any case. -/
def protocol [DecidableEq St] (script : List St) : Protocol (Call St) (fun _ => Bool) Mode
  | .idle, .begin => some fun ok => if ok then .begun else .ended false
  | .begun, .lock => some fun ok => if ok then .serial 0 else .failing
  | .serial n, .exec st =>
    if script[n]? = some st then some fun ok => if ok then .serial (n + 1) else .failing else none
  | .serial n, .commit =>
    if n = script.length then some fun ok => if ok then .committed else .failing else none
  | .committed, .rollback => some fun _ => .ended true
  | .failing, .rollback => some fun _ => .ended false
  | _, _ => none

/-- What an answer is. -/
inductive Responds (l : Language D St W) (s : Store D) (i : Nat) : Call St → Bool → Store D → Prop
  | failed (e : Call St) : Responds l s i e false s
  | begun (told : Bool) : Responds l s i .begin told (s.put i ⟨none, false⟩)
  | locked (told : Bool) (free : s.lock = none ∨ s.lock = some i) :
      Responds l s i .lock told { s with lock := some i }
  | executed (told : Bool) {st : St} {t : Tx D} {changed : Option D} (has : s.tx i = some t)
      (sure : t.inDoubt = false)
      (ran : l.run st (t.work.getD s.committed) = some changed) :
      Responds l s i (.exec st) told (s.put i { t with work := changed <|> t.work })
  | committed {t : Tx D} (has : s.tx i = some t) (sure : t.inDoubt = false) :
      Responds l s i .commit true (s.apply i t)
  | sent {t : Tx D} (has : s.tx i = some t) (sure : t.inDoubt = false) :
      Responds l s i .commit false (s.put i { t with inDoubt := true })
  | stays (told : Bool) : Responds l s i .rollback told s
  | rolledBack (told : Bool) : Responds l s i .rollback told (s.drop i)

theorem respond_responds {s t : Store D} {i : Nat} {e : Call St} {c : Choice} {r : Bool}
    (h : s.respond l i e c = some (r, t)) : Responds l s i e r t := by
  cases c with
  | failed =>
    have same : (false, s) = (r, t) := by
      cases e <;> exact Option.some.inj h
    cases same
    exact .failed e
  | took told =>
    cases e with
    | begin =>
      obtain ⟨_, same⟩ := Option.ite_none_right_eq_some.mp h
      cases same
      exact .begun _
    | lock =>
      obtain ⟨t', has, rest⟩ := Option.bind_eq_some_iff.mp h
      obtain ⟨free, same⟩ := Option.ite_none_right_eq_some.mp rest
      cases same
      exact .locked _ free
    | exec st =>
      obtain ⟨t', has, rest⟩ := Option.bind_eq_some_iff.mp h
      obtain ⟨sure, rest⟩ := Option.ite_none_left_eq_some.mp rest
      obtain ⟨changed, ran, same⟩ := Option.map_eq_some_iff.mp rest
      cases same
      exact .executed _ has (Bool.eq_false_iff.mpr sure) ran
    | commit =>
      obtain ⟨t', has, rest⟩ := Option.bind_eq_some_iff.mp h
      obtain ⟨sure, rest⟩ := Option.ite_none_left_eq_some.mp rest
      cases told with
      | true =>
        cases rest
        exact .committed has (Bool.eq_false_iff.mpr sure)
      | false =>
        cases rest
        exact .sent has (Bool.eq_false_iff.mpr sure)
    | rollback =>
      rw [Store.respond] at h
      cases has : s.tx i with
      | none =>
        rw [has] at h
        cases h
        exact .stays _
      | some t' =>
        rw [has] at h
        cases doubt : t'.inDoubt with
        | true =>
          simp only [doubt, if_true] at h
          cases h
          exact .stays _
        | false =>
          simp only [doubt, Bool.false_eq_true, if_false] at h
          cases h
          exact .rolledBack _

theorem mem_of_tx {s : Store D} {i : Nat} {t : Tx D} (h : s.tx i = some t) : (i, t) ∈ s.txs := by
  obtain ⟨⟨j, t'⟩, found, rfl⟩ := Option.map_eq_some_iff.mp h
  have is := List.find?_some found
  simp only [decide_eq_true_eq] at is
  subst is
  exact List.mem_of_find?_eq_some found

theorem mem_put {s : Store D} {i j : Nat} {t t' : Tx D} (h : (j, t') ∈ (s.put i t).txs) :
    j = i ∧ t' = t ∨ j ≠ i ∧ (j, t') ∈ s.txs := by
  rcases List.mem_cons.mp h with new | old
  · cases new
    exact .inl ⟨rfl, rfl⟩
  · obtain ⟨mem, other⟩ := List.mem_filter.mp old
    exact .inr ⟨of_decide_eq_true other, mem⟩

theorem mem_drop {s : Store D} {i j : Nat} {t : Tx D} (h : (j, t) ∈ (s.drop i).txs) :
    j ≠ i ∧ (j, t) ∈ s.txs := by
  obtain ⟨mem, other⟩ := List.mem_filter.mp h
  exact ⟨of_decide_eq_true other, mem⟩

theorem lock_drop {s : Store D} {i j : Nat} (other : j ≠ i) :
    (s.drop i).lock = some j ↔ s.lock = some j := by
  show (if s.lock = some i then none else s.lock) = some j ↔ _
  by_cases mine : s.lock = some i
  · rw [if_pos mine, mine]
    exact ⟨nofun, fun same => absurd (Option.some.inj same).symm other⟩
  · rw [if_neg mine]

/-- What the transaction of a client is, by where the client stands. -/
def Fits (l : Language D St W) (script : List St) (d : D) (locked : Prop) (t : Tx D) : Mode → Prop
  | .begun => t.work = none ∧ t.inDoubt = false
  | .serial n => locked ∧ t.inDoubt = false ∧ l.play d none (script.take n) = some t.work
  | _ => t.inDoubt = true → l.play d none script = some t.work

/-- Only the transaction with the lock has a version of its own, which is what the script has made
of what is committed. -/
structure Kept (l : Language D St W) (script : List St) (s : Store D) (modes : List Mode) :
    Prop where
  fits : ∀ i t, (i, t) ∈ s.txs → ∃ mode, modes[i]? = some mode ∧
    Fits l script s.committed (s.lock = some i) t mode
  alone : ∀ i t, (i, t) ∈ s.txs → s.lock ≠ some i → t.work = none ∧ t.inDoubt = false
  applied : ∀ i ∈ s.applied, i < modes.length
  told : ∀ i mode, modes[i]? = some mode → mode = .committed ∨ mode = .ended true → i ∈ s.applied

theorem kept_fresh (d : D) : Kept l script (.fresh d) [] where
  fits := nofun
  alone := nofun
  applied := nofun
  told := nofun

theorem Kept.arrive {s : Store D} {modes : List Mode} (h : Kept l script s modes) :
    Kept l script s (modes ++ [.idle]) where
  fits i t mem := by
    obtain ⟨mode, entry, fits⟩ := h.fits i t mem
    exact ⟨mode, Rows.getElem?_append_some entry _, fits⟩
  alone := h.alone
  applied i mem := by
    rw [List.length_append]
    exact Nat.lt_add_right 1 (h.applied i mem)
  told i mode entry ended := by
    rcases Rows.getElem?_concat entry with earlier | ⟨_, rfl⟩
    · exact h.told i mode earlier ended
    · rcases ended with same | same <;> cases same

/-- A step in which client `i` alone moves. -/
theorem Kept.update {s t : Store D} {modes modes' : List Mode} {i : Nat} {mode : Mode}
    (h : Kept l script s modes) (mine : modes'[i]? = some mode)
    (others : ∀ j, j ≠ i → modes'[j]? = modes[j]?) (length : modes'.length = modes.length)
    (own : ∀ x, (i, x) ∈ t.txs → Fits l script t.committed (t.lock = some i) x mode ∧
      (t.lock ≠ some i → x.work = none ∧ x.inDoubt = false))
    (kept : ∀ j x, j ≠ i → (j, x) ∈ t.txs → (j, x) ∈ s.txs)
    (lock : ∀ j, j ≠ i → (t.lock = some j ↔ s.lock = some j))
    (same : t.committed = s.committed ∨ ∀ j, j ≠ i → s.lock ≠ some j)
    (applied : ∀ j ∈ t.applied, j = i ∨ j ∈ s.applied) (before : ∀ j ∈ s.applied, j ∈ t.applied)
    (told : mode = .committed ∨ mode = .ended true → i ∈ t.applied) : Kept l script t modes' where
  fits j x mem := by
    by_cases isI : j = i
    · subst isI
      exact ⟨mode, mine, (own x mem).1⟩
    · have old := kept j x isI mem
      obtain ⟨mode', entry, fits⟩ := h.fits j x old
      refine ⟨mode', (others j isI).trans entry, ?_⟩
      rcases same with same | elsewhere
      · rw [same, show (t.lock = some j) = (s.lock = some j) from propext (lock j isI)]
        exact fits
      · -- another transaction has no version, so what is committed does not concern it
        obtain ⟨none_, sure⟩ := h.alone j x old (elsewhere j isI)
        cases mode' with
        | begun => exact fits
        | serial n => exact absurd fits.1 (elsewhere j isI)
        | idle | failing | committed | ended ok =>
          intro doubt
          rw [sure] at doubt
          cases doubt
  alone j x mem away := by
    by_cases isI : j = i
    · subst isI
      exact (own x mem).2 away
    · exact h.alone j x (kept j x isI mem) fun locked => away ((lock j isI).mpr locked)
  applied j mem := by
    rw [length]
    rcases applied j mem with rfl | old
    · rw [← length]
      exact (List.getElem?_eq_some_iff.mp mine).1
    · exact h.applied j old
  told j mode' entry ended := by
    by_cases isI : j = i
    · subst isI
      cases mine.symm.trans entry
      exact told ended
    · exact before j (h.told j mode' ((others j isI).symm.trans entry) ended)

/-- Where a call may be made, and where it leads. -/
inductive Admitted (script : List St) : Mode → Call St → (Bool → Mode) → Prop
  | begin : Admitted script .idle .begin fun ok => if ok then .begun else .ended false
  | lock : Admitted script .begun .lock fun ok => if ok then .serial 0 else .failing
  | exec {n : Nat} {st : St} (entry : script[n]? = some st) :
      Admitted script (.serial n) (.exec st) fun ok => if ok then .serial (n + 1) else .failing
  | commit : Admitted script (.serial script.length) .commit fun ok =>
    if ok then .committed else .failing
  | done : Admitted script .committed .rollback fun _ => .ended true
  | undone : Admitted script .failing .rollback fun _ => .ended false

theorem protocol_admitted [DecidableEq St] {mode : Mode} {e : Call St} {onward : Bool → Mode}
    (h : protocol script mode e = some onward) : Admitted script mode e onward := by
  unfold protocol at h
  split at h
  · cases h
    exact .begin
  · cases h
    exact .lock
  · obtain ⟨entry, same⟩ := Option.ite_none_right_eq_some.mp h
    cases same
    exact .exec entry
  · obtain ⟨rfl, same⟩ := Option.ite_none_right_eq_some.mp h
    cases same
    exact .commit
  · cases h
    exact .done
  · cases h
    exact .undone
  · cases h

section

variable {s t : Store D} {modes : List Mode} {i : Nat} {mode new : Mode}

/-- The transaction of a client that stands somewhere. -/
theorem Kept.mine (h : Kept l script s modes) (found : modes[i]? = some mode) {x : Tx D}
    (mem : (i, x) ∈ s.txs) :
    Fits l script s.committed (s.lock = some i) x mode := by
  obtain ⟨mode', entry, fits⟩ := h.fits i x mem
  cases found.symm.trans entry
  exact fits

/-- The store stays as it is. -/
theorem Kept.still (h : Kept l script s modes) (found : modes[i]? = some mode)
    (weaker : ∀ x, Fits l script s.committed (s.lock = some i) x mode →
      Fits l script s.committed (s.lock = some i) x new)
    (told : new = .committed ∨ new = .ended true → mode = .committed ∨ mode = .ended true) :
    Kept l script s (modes.set i new) := by
  refine h.update (i := i) (Rows.getElem?_set found new)
    (fun j other => List.getElem?_set_ne (Ne.symm other)) List.length_set ?_ (fun j x _ mem => mem)
    (fun j _ => Iff.rfl) (.inl rfl) (fun j mem => .inr mem) (fun j mem => mem)
    fun ended => h.told i mode found (told ended)
  intro x mem
  exact ⟨weaker x (h.mine found mem), h.alone i x mem⟩

/-- Only the transaction of the client and its lock change. -/
theorem Kept.moved (h : Kept l script s modes) (found : modes[i]? = some mode)
    (same : t.committed = s.committed)
    (own : ∀ x, (i, x) ∈ t.txs → Fits l script s.committed (t.lock = some i) x new ∧
      (t.lock ≠ some i → x.work = none ∧ x.inDoubt = false))
    (kept : ∀ j x, j ≠ i → (j, x) ∈ t.txs → (j, x) ∈ s.txs)
    (lock : ∀ j, j ≠ i → (t.lock = some j ↔ s.lock = some j)) (applied : t.applied = s.applied)
    (told : new = .committed ∨ new = .ended true → mode = .committed ∨ mode = .ended true) :
    Kept l script t (modes.set i new) := by
  refine h.update (i := i) (Rows.getElem?_set found new)
    (fun j other => List.getElem?_set_ne (Ne.symm other)) List.length_set ?_ kept lock
      (.inl same) ?_ ?_ ?_
  · rw [same]
    exact own
  · intro j mem
    rw [applied] at mem
    exact .inr mem
  · intro j mem
    rw [applied]
    exact mem
  · intro ended
    rw [applied]
    exact h.told i mode found (told ended)

/-- The transaction of the client is another one. -/
theorem Kept.stored (h : Kept l script s modes) (found : modes[i]? = some mode) {x : Tx D}
    (fits : Fits l script s.committed (s.lock = some i) x new)
    (alone : s.lock ≠ some i → x.work = none ∧ x.inDoubt = false)
    (told : new = .committed ∨ new = .ended true → mode = .committed ∨ mode = .ended true) :
    Kept l script (s.put i x) (modes.set i new) := by
  refine h.moved found rfl ?_ ?_ (fun _ _ => Iff.rfl) rfl told
  · intro x' mem
    obtain ⟨_, rfl⟩ | ⟨other, _⟩ := mem_put mem
    · exact ⟨fits, alone⟩
    · exact absurd rfl other
  · intro j x' other mem
    obtain ⟨same, _⟩ | ⟨_, old⟩ := mem_put mem
    · exact absurd same other
    · exact old

/-- The transaction of client `i` is over, without effect. -/
theorem Kept.dropped (h : Kept l script s modes) {modes' : List Mode}
    (mine : modes'[i]? = some mode) (others : ∀ j, j ≠ i → modes'[j]? = modes[j]?)
    (length : modes'.length = modes.length)
    (told : mode = .committed ∨ mode = .ended true → i ∈ s.applied) :
    Kept l script (s.drop i) modes' :=
  h.update mine others length (fun _ mem => absurd rfl (mem_drop mem).1)
    (fun _ _ _ mem => (mem_drop mem).2)
    (fun _ other => lock_drop other) (.inl rfl) (fun _ mem => .inr mem) (fun _ mem => mem) told

/-- The transaction of client `i`, which has the lock, is committed. -/
theorem Kept.committed (h : Kept l script s modes) {modes' : List Mode}
    (mine : modes'[i]? = some mode) (others : ∀ j, j ≠ i → modes'[j]? = modes[j]?)
    (length : modes'.length = modes.length) (locked : s.lock = some i) (x : Tx D) :
    Kept l script (s.apply i x) modes' := by
  refine h.update mine others length (fun _ mem => absurd rfl (mem_drop mem).1)
    (fun _ _ _ mem => (mem_drop mem).2)
    (fun _ other => lock_drop other) (.inr ?_) (fun j mem => List.mem_cons.mp mem)
    (fun j mem => List.mem_cons_of_mem i mem) fun _ => List.mem_cons_self
  intro j other
  rw [locked]
  exact fun same => other (Option.some.inj same).symm

/-- What a step does to what is committed, and whose transaction that was. -/
inductive Moved (l : Language D St W) (script : List St) (s t : Store D) : Prop
  | still (same : t.committed = s.committed) (applied : t.applied = s.applied)
  | upgraded (i : Nat) (upgraded : l.upgrade script s.committed = some t.committed)
      (applied : t.applied = i :: s.applied)
  | written (w : W) (written : l.write w s.committed = some t.committed)
      (applied : t.applied = s.applied)

/-- What is committed moves as on the store on which the script is applied at once. -/
theorem Moved.runs {init : D → Prop} (h : Moved l script s t) :
    (atomic l script init).Runs s.committed t.committed := by
  cases h with
  | still same applied =>
    rw [same]
    exact .refl _
  | upgraded i upgraded applied => exact .single (e := .upgrade) upgraded
  | written w written applied => exact .single (e := .write w) written

theorem moved_apply {x : Tx D} (played : l.play s.committed none script = some x.work) :
    Moved l script s (s.apply i x) := by
  refine .upgraded i ?_ rfl
  rw [Language.upgrade, played]
  rfl

end

/-- **A call.** It keeps the invariant, and moves what is committed as the whole script at once, if
at all. -/
theorem Kept.respond [DecidableEq St] {s t : Store D} {modes : List Mode} {i : Nat} {mode : Mode}
    {e : Call St} {onward : Bool → Mode} {c : Choice} {r : Bool} (h : Kept l script s modes)
    (found : modes[i]? = some mode) (admitted : protocol script mode e = some onward)
    (answers : s.respond l i e c = some (r, t)) :
    Kept l script t (modes.set i (onward r)) ∧ Moved l script s t := by
  have set_self : ∀ new, (modes.set i new)[i]? = some new := fun new => Rows.getElem?_set found new
  have set_ne : ∀ new j, j ≠ i → (modes.set i new)[j]? = modes[j]? := fun new j other =>
    List.getElem?_set_ne (Ne.symm other)
  have length : ∀ new, (modes.set i new).length = modes.length := fun new => List.length_set
  have unsure : ∀ {x : Tx D} {p : Prop}, x.inDoubt = false → x.inDoubt = true → p := by
    intro x p sure doubt
    rw [sure] at doubt
    cases doubt
  cases protocol_admitted admitted with
  | begin =>
    cases respond_responds answers with
    | failed => exact ⟨h.still found (fun _ fits => fits) nofun, .still rfl rfl⟩
    | begun told =>
      refine ⟨h.stored found ?_ (fun _ => ⟨rfl, rfl⟩) ?_, .still rfl rfl⟩
      · cases r with
        | false => exact nofun
        | true => exact ⟨rfl, rfl⟩
      · cases r <;> exact nofun
  | lock =>
    cases respond_responds answers with
    | failed => exact ⟨h.still found (fun _ fits => unsure fits.2) nofun, .still rfl rfl⟩
    | locked told free =>
      refine ⟨h.moved found rfl ?_ (fun _ _ _ mem => mem) ?_ rfl ?_, .still rfl rfl⟩
      · intro x mem
        obtain ⟨fresh, sure⟩ := h.mine found mem
        refine ⟨?_, fun away => absurd rfl away⟩
        cases r with
        | false => exact unsure sure
        | true => exact ⟨rfl, sure, by rw [fresh]; rfl⟩
      · intro j other
        refine ⟨fun same => absurd (Option.some.inj same).symm other, fun locked => ?_⟩
        rcases free with free | free <;> rw [free] at locked
        · cases locked
        · exact absurd (Option.some.inj locked).symm other
      · cases r <;> exact nofun
  | @exec n st entry =>
    cases respond_responds answers with
    | failed => exact ⟨h.still found (fun _ fits => unsure fits.2.1) nofun, .still rfl rfl⟩
    | @executed told st' x changed has sure ran =>
      obtain ⟨locked, _, played⟩ := h.mine found (mem_of_tx has)
      refine ⟨h.stored found ?_ (fun away => absurd locked away) ?_, .still rfl rfl⟩
      · cases r with
        | false => exact unsure sure
        | true => exact ⟨locked, sure, play_take_succ entry played ran⟩
      · cases r <;> exact nofun
  | commit =>
    have whole : ∀ x, (i, x) ∈ s.txs → s.lock = some i ∧
        l.play s.committed none script = some x.work := by
      intro x mem
      obtain ⟨locked, _, played⟩ := h.mine found mem
      rw [List.take_length] at played
      exact ⟨locked, played⟩
    cases respond_responds answers with
    | failed => exact ⟨h.still found (fun _ fits => unsure fits.2.1) nofun, .still rfl rfl⟩
    | committed has sure =>
      obtain ⟨locked, played⟩ := whole _ (mem_of_tx has)
      exact ⟨h.committed (set_self _) (set_ne _) (length _) locked _, moved_apply played⟩
    | sent has sure =>
      obtain ⟨locked, played⟩ := whole _ (mem_of_tx has)
      exact ⟨h.stored found (fun _ => played) (fun away => absurd locked away) nofun,
        .still rfl rfl⟩
  | done =>
    cases respond_responds answers with
    | failed | stays => exact ⟨h.still found (fun _ fits => fits) fun _ => .inl rfl, .still rfl rfl⟩
    | rolledBack told =>
      exact ⟨h.dropped (set_self _) (set_ne _) (length _) fun _ => h.told i _ found (.inl rfl),
        .still rfl rfl⟩
  | undone =>
    cases respond_responds answers with
    | failed | stays => exact ⟨h.still found (fun _ fits => fits) nofun, .still rfl rfl⟩
    | rolledBack told => exact ⟨h.dropped (set_self _) (set_ne _) (length _) nofun, .still rfl rfl⟩

/-- **A move of the store.** It keeps the invariant, and moves what is committed as a write or the
whole script at once, if at all. -/
theorem Kept.background (stable : l.Stable) {s t : Store D} {modes : List Mode} {b : Background W}
    (h : Kept l script s modes) (moves : s.background l b = some t) :
    Kept l script t modes ∧ Moved l script s t := by
  cases b with
  | settle i apply =>
    obtain ⟨x, has, rest⟩ := Option.bind_eq_some_iff.mp moves
    obtain ⟨doubt, rest⟩ := Option.ite_none_right_eq_some.mp rest
    have mem := mem_of_tx has
    obtain ⟨mode, found, fits⟩ := h.fits i x mem
    -- only the transaction with the lock can be in doubt
    have locked : s.lock = some i := by
      by_contra away
      rw [(h.alone i x mem away).2] at doubt
      cases doubt
    have played : l.play s.committed none script = some x.work := by
      cases mode with
      | begun => exact absurd (doubt.symm.trans fits.2) nofun
      | serial n => exact absurd (doubt.symm.trans fits.2.1) nofun
      | idle | failing | committed | ended ok => exact fits doubt
    cases apply with
    | true =>
      cases rest
      exact ⟨h.committed found (fun _ _ => rfl) rfl locked x, moved_apply played⟩
    | false =>
      cases rest
      exact ⟨h.dropped found (fun _ _ => rfl) rfl (h.told i mode found), .still rfl rfl⟩
  | abort i =>
    obtain ⟨x, has, rest⟩ := Option.bind_eq_some_iff.mp moves
    obtain ⟨_, rest⟩ := Option.ite_none_left_eq_some.mp rest
    cases rest
    obtain ⟨mode, found, _⟩ := h.fits i x (mem_of_tx has)
    exact ⟨h.dropped found (fun _ _ => rfl) rfl (h.told i mode found), .still rfl rfl⟩
  | write w =>
    obtain ⟨plain, rest⟩ := Option.ite_none_right_eq_some.mp moves
    obtain ⟨d, written, rfl⟩ := Option.map_eq_some_iff.mp rest
    have versionless : ∀ i x, (i, x) ∈ s.txs → x.work = none := by
      intro i x mem
      exact Option.isNone_iff_eq_none.mp (List.all_eq_true.mp plain (i, x) mem)
    refine ⟨⟨fun i x mem => ?_, h.alone, h.applied, h.told⟩, .written w written rfl⟩
    obtain ⟨mode, found, fits⟩ := h.fits i x mem
    refine ⟨mode, found, ?_⟩
    have none_ := versionless i x mem
    cases mode with
    | begun => exact fits
    | serial n =>
      obtain ⟨locked, sure, played⟩ := fits
      rw [none_] at played
      exact ⟨locked, sure, by rw [none_]; exact play_write stable written played⟩
    | idle | failing | committed | ended ok =>
      intro doubt
      have played := fits doubt
      rw [none_] at played ⊢
      exact play_write stable written played

end Serial
