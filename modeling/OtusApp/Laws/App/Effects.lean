import OtusApp.Laws.App.Store
import OtusApp.Lib.Protocol

/-!
# The side effects of a creation

A stored message earns an increment of the counter and an entry in the audit log. `discipline` is
the protocol of a request that pays what its `Create` has earned before it opens the next one, and
`serve_follows` says what each front end pays. Along a run, the effects done and those still owed
are in balance with the rows stored (`Account`), as long as a `Create` succeeds only by storing a
row.
-/

namespace OtusApp.App

open Messaging Messages Go Storage Program Machine Transition

variable {codec : EventCodec} {cfg : Handlers.Config}

/-! ## The protocol -/

/-- A kind of effect: how far an increment and an entry of the audit log count as it, and how often
a stored text is to have it. -/
structure Tally where
  counted : Nat
  recorded : String → String → Nat
  earned : String → Nat

namespace Tally

/-- How far a call counts. -/
def paid (t : Tally) : Effect → Nat
  | .count => t.counted
  | .record event text => t.recorded event text
  | _ => 0

/-- What a result earns. -/
def gain (t : Tally) : Except Err Message → Nat
  | .ok m => t.earned m.text
  | .error _ => 0

end Tally

/-- Where a request stands: it waits for a `Create`, or it owes what the last one has earned. -/
inductive Mode
  | owes (n : Nat)
  | awaits (call : Nat)
deriving DecidableEq, Repr

/-- A `Create` is opened by a request that owes nothing, and awaited at once. -/
def discipline (t : Tally) : Protocol Effect Effect.Result Mode
  | .owes n, .submit _ _ => if n = 0 then some .awaits else none
  | .owes _, .await _ => none
  | .owes n, e => if t.paid e ≤ n then some fun _ => .owes (n - t.paid e) else none
  | .awaits call, .await call' =>
    if call' = call then some fun result => .owes (t.gain result) else none
  | .awaits _, _ => none

/-- What is owed at the end of a program. -/
def Left {α : Type} (n : Nat) (mode : Mode) (_ : α) : Prop := mode = .owes n

variable {t : Tally}

/-- Whether a call is a half of a `Create`. -/
def creates : Effect → Bool
  | .submit _ _ => true
  | .await _ => true
  | _ => false

theorem discipline_submit (text key : String) :
    discipline t (.owes 0) (.submit text key) = some .awaits :=
  rfl

theorem discipline_await (call : Nat) :
    discipline t (.awaits call) (.await call) = some fun result => .owes (t.gain result) :=
  if_pos rfl

theorem discipline_paid (e : Effect) (other : creates e = false) {m n : Nat}
    (h : m = t.paid e + n) :
    discipline t (.owes m) e = some fun _ => .owes n := by
  subst h
  cases e with
  | submit | await => cases other
  | list | cacheGet | cacheSet | cacheDelete | count | record =>
    simp only [discipline, Nat.le_add_right, if_true, Nat.add_sub_cancel_left]

/-- The calls a request may make, and where they lead. -/
inductive Disciplined (t : Tally) : Mode → (e : Effect) → (e.Result → Mode) → Prop
  | submit (text key : String) : Disciplined t (.owes 0) (.submit text key) .awaits
  | await (call : Nat) : Disciplined t (.awaits call) (.await call) fun result =>
    .owes (t.gain result)
  | pay {e : Effect} (n : Nat) (other : creates e = false) :
    Disciplined t (.owes (t.paid e + n)) e fun _ => .owes n

theorem disciplined {mode : Mode} {e : Effect} {onward : e.Result → Mode}
    (h : discipline t mode e = some onward) : Disciplined t mode e onward := by
  cases mode with
  | owes n =>
    cases e with
    | submit text key =>
      obtain ⟨rfl, eq⟩ := Option.ite_none_right_eq_some.mp h
      cases eq
      exact .submit text key
    | await call => cases h
    | list | cacheGet | cacheSet | cacheDelete | count | record =>
      simp only [discipline, Option.ite_none_right_eq_some] at h
      obtain ⟨le, eq⟩ := h
      cases eq
      obtain ⟨m, rfl⟩ := Nat.exists_eq_add_of_le le
      rw [Nat.add_sub_cancel_left]
      exact .pay m rfl
  | awaits call =>
    cases e with
    | await call' =>
      obtain ⟨rfl, eq⟩ := Option.ite_none_right_eq_some.mp h
      cases eq
      exact .await call'
    | submit | list | cacheGet | cacheSet | cacheDelete | count | record => cases h

/-! ## What the front ends pay -/

theorem count_follows (n : Nat) : count.Follows (discipline t) (Left n) (.owes (t.counted + n)) :=
  ⟨_, discipline_paid .count rfl rfl, fun _ => rfl⟩

theorem record_follows (event text : String) (n : Nat) :
    (record event text).Follows (discipline t) (Left n) (.owes (t.recorded event text + n)) :=
  ⟨_, discipline_paid (.record event text) rfl rfl, fun _ => rfl⟩

theorem aside_follows {α : Type} {n : Nat} {x : Handler α} (h : x.All Aside) :
    x.Follows (discipline t) (Left n) (.owes n) := by
  induction x with
  | ret a => rfl
  | call e k ih =>
    obtain ⟨aside, rest⟩ := h
    have free : discipline t (.owes n) e = some fun _ => .owes n := by
      cases e with
      | submit | await | count | record => exact aside.elim
      | list | cacheGet | cacheSet | cacheDelete =>
        exact discipline_paid _ rfl (Nat.zero_add n).symm
    exact ⟨_, free, fun r => ih r (rest r)⟩

section Handlers

seal validateText trimSpace

theorem create_follows (text key : String) :
    (create text key).Follows (discipline t) (fun mode result => mode = .owes (t.gain result))
      (.owes 0) := by
  unfold create
  split
  · rfl
  · exact ⟨_, discipline_submit _ _, fun call => ⟨_, discipline_await call, fun result => rfl⟩⟩

/-- The event of an entry that a message was created. -/
def createdEntry : String := "создано сообщение"

/-- What an entry in the audit log pays, where one is made. -/
def Tally.logged (t : Tally) (audits : Bool) (text : String) : Nat :=
  if audits then t.recorded createdEntry text else 0

theorem audit_follows (text : String) (n : Nat) :
    (Handlers.audit cfg text).Follows (discipline t) (Left n)
      (.owes (t.logged cfg.audited text + n)) := by
  unfold Handlers.audit Tally.logged
  split
  · exact record_follows _ text n
  · rw [Nat.zero_add]
    rfl

theorem createMessage_follows (req : Request)
    (pays : ∀ text, t.earned text = t.counted + t.logged cfg.audited text) :
    (Handlers.createMessage cfg req).Follows (discipline t) (Left 0) (.owes 0) := by
  unfold Handlers.createMessage
  split
  · rfl
  · split
    · rfl
    · refine (create_follows _ _).bind ?_
      rintro _ result rfl
      split
      · rfl
      · rfl
      · next msg =>
        rw [Tally.gain, pays]
        refine (count_follows _).bind ?_
        rintro _ _ rfl
        refine (audit_follows msg.text 0).bind ?_
        rintro _ _ rfl
        refine (aside_follows invalidate_aside).bind ?_
        rintro _ _ rfl
        rfl

theorem grpcCreate_follows (md : Header) (text : String)
    (pays : ∀ text, t.earned text = t.counted) :
    (Grpcserver.createMessage md text).Follows (discipline t) (Left 0) (.owes 0) := by
  unfold Grpcserver.createMessage
  split
  · rfl
  · refine (create_follows _ _).bind ?_
    rintro _ result rfl
    split
    · rfl
    · rfl
    · rw [Tally.gain, pays]
      refine (count_follows 0).bind ?_
      rintro _ _ rfl
      rfl

theorem batchCreate_follows (ending : Grpcserver.Ending) (pays : ∀ text, t.earned text = t.counted)
    (texts : List String) :
    ∀ ids, (Grpcserver.batchCreate ending ids texts).Follows (discipline t) (Left 0) (.owes 0) := by
  induction texts with
  | nil =>
    intro ids
    cases ending <;> rfl
  | cons text rest ih =>
    intro ids
    unfold Grpcserver.batchCreate
    split
    · rfl
    · refine (create_follows _ _).bind ?_
      rintro _ result rfl
      split
      · rfl
      · next msg =>
        rw [Tally.gain, pays]
        refine (count_follows 0).bind ?_
        rintro _ _ rfl
        exact ih _

/-- Whether a creation of this request goes to the audit log: gRPC has none. -/
def Incoming.audits (cfg : Handlers.Config) (q : Incoming) : Bool := cfg.audited && !q.rpc

/-- **What is paid.** Each creation is followed by an increment, and over HTTP by an entry in the
audit log. -/
theorem serve_follows (q : Incoming)
    (pays : ∀ text, t.earned text = t.counted + t.logged (q.audits cfg) text) :
    (serve cfg q).Follows (discipline t) (Left 0) (.owes 0) := by
  cases q with
  | post req valid exceeded =>
    rw [show (Incoming.post req valid exceeded).audits cfg = cfg.audited
      from Bool.and_true _] at pays
    suffices inner : (Handlers.postMessages cfg req valid exceeded).Follows (discipline t) (Left 0)
      (.owes 0) from
      inner.bind fun _ _ left => left
    unfold Handlers.postMessages Handlers.authorized Handlers.limited
    split
    · rfl
    · split
      · rfl
      · exact createMessage_follows req pays
  | get req exceeded =>
    exact (aside_follows (getMessages_aside exceeded)).bind fun _ _ left => left
  | unary md text valid =>
    rw [show (Incoming.unary md text valid).audits cfg = false from Bool.and_false _] at pays
    suffices inner : (Grpcserver.unaryCreate cfg.authEnabled valid md text).Follows (discipline t)
      (Left 0) (.owes 0) from
      inner.bind fun _ _ left => left
    unfold Grpcserver.unaryCreate
    split
    · rfl
    · exact grpcCreate_follows md text pays
  | batch md texts ending valid =>
    rw [show (Incoming.batch md texts ending valid).audits cfg = false
      from Bool.and_false _] at pays
    suffices inner : (Grpcserver.streamBatch cfg.authEnabled valid md texts ending).Follows
      (discipline t) (Left 0) (.owes 0) from
      inner.bind fun _ _ left => left
    unfold Grpcserver.streamBatch
    split
    · rfl
    · exact batchCreate_follows ending pays texts []

end Handlers

/-! ## The account -/

namespace Tally

/-- What has been done so far. -/
def done (t : Tally) (s : Env codec) : Nat :=
  t.counted * s.created + (s.audit.map fun entry => t.recorded entry.event entry.text).sum

/-- What the stored rows are to have. -/
def stored (t : Tally) (rows : List MessageRow) : Nat := (rows.map fun r => t.earned r.text).sum

/-- What a `Create` has earned: nothing before its caller was told the result. -/
def worth (t : Tally) (c : Call codec.Payload) : Nat := (c.result.map t.gain).getD 0

/-- What a request owes, its `Create` included. -/
def owed (t : Tally) (calls : List (Call codec.Payload)) : Mode → Nat
  | .owes n => n
  | .awaits j => ((calls[j]?).map t.worth).getD 0

end Tally

/-- The effects done and those owed are those the new rows are to have. A `Create` whose caller is
yet to be told its result is awaited by one request. -/
structure Account (t : Tally) (base : Nat) (s : Env codec) (modes : List Mode) : Prop where
  balance : base + t.done s + (modes.map (t.owed s.db.calls)).sum = t.stored s.db.tables.messages
  apart : ∀ (i i' : Nat) j, modes[i]? = some (.awaits j) → modes[i']? = some (.awaits j) → i = i'
  made : ∀ j, .awaits j ∈ modes → j < s.db.calls.length
  awaited : ∀ (j : Nat) c, s.db.calls[j]? = some c → c.result = none → .awaits j ∈ modes

variable {base : Nat}

theorem Account.arrive {s : Env codec} {modes : List Mode} (h : Account t base s modes) :
    Account t base s (modes ++ [.owes 0]) where
  balance := by
    rw [List.map_append, List.sum_append, ← h.balance]
    rfl
  apart i i' j hi hi' := by
    have earlier : ∀ k : Nat, (modes ++ [Mode.owes 0])[k]? = some (.awaits j) →
        modes[k]? = some (.awaits j) := by
      intro k entry
      rw [List.getElem?_append] at entry
      split at entry
      · exact entry
      · have mem := List.mem_of_getElem? entry
        cases List.mem_singleton.mp mem
    exact h.apart i i' j (earlier i hi) (earlier i' hi')
  made j mem := by
    rcases List.mem_append.mp mem with mem | mem
    · exact h.made j mem
    · cases List.mem_singleton.mp mem
  awaited j c hc untold := List.mem_append_left _ (h.awaited j c hc untold)

/-- A step after which a request waits for nothing: what it owes has moved to what is done. -/
theorem Account.turn {s s' : Env codec} {modes : List Mode} (h : Account t base s modes) {i n : Nat}
    {mode : Mode} (entry : modes[i]? = some mode) (db : s'.db = s.db)
    (paid : t.done s' + n = t.done s + t.owed s.db.calls mode)
    (told : ∀ (j : Nat) c, mode = .awaits j → s.db.calls[j]? = some c → c.result ≠ none) :
    Account t base s' (modes.set i (.owes n)) where
  balance := by
    have sum := Rows.sum_map_set (f := t.owed s.db.calls) entry (.owes n) fun _ _ _ _ => rfl
    have balance := h.balance
    rw [db]
    simp only [Tally.owed] at sum paid
    omega
  apart k k' j hk hk' := by
    have other : ∀ k : Nat, (modes.set i (.owes n))[k]? = some (.awaits j) →
        modes[k]? = some (.awaits j) := by
      intro k found
      rw [List.getElem?_set] at found
      split at found
      · split at found <;> cases found
      · exact found
    exact h.apart k k' j (other k hk) (other k' hk')
  made j mem := by
    rw [db]
    rcases List.mem_or_eq_of_mem_set mem with mem | eq
    · exact h.made j mem
    · cases eq
  awaited j c hc untold := by
    rw [db] at hc
    obtain ⟨k, found⟩ := List.mem_iff_getElem?.mp (h.awaited j c hc untold)
    have ne : i ≠ k := by
      rintro rfl
      exact told j c (Option.some.inj (entry.symm.trans found)) hc untold
    exact List.mem_of_getElem? ((List.getElem?_set_ne ne).trans found)

/-- A request opens a `Create`. -/
theorem Account.opened {s s' : Env codec} {modes : List Mode} (h : Account t base s modes) {i : Nat}
    (entry : modes[i]? = some (.owes 0)) {c : Call codec.Payload}
    (calls : s'.db.calls = s.db.calls ++ [c])
    (messages : s'.db.tables.messages = s.db.tables.messages) (done : t.done s' = t.done s)
    (worthless : t.worth c = 0) : Account t base s' (modes.set i (.awaits s.db.calls.length)) := by
  have kept : ∀ j, j < s.db.calls.length → s'.db.calls[j]? = s.db.calls[j]? := by
    intro j lt
    rw [calls, List.getElem?_append_left lt]
  have last : s'.db.calls[s.db.calls.length]? = some c := by
    rw [calls, List.getElem?_concat_length]
  have unopened : ∀ k : Nat, modes[k]? ≠ some (.awaits s.db.calls.length) := fun k found =>
    Nat.lt_irrefl _ (h.made _ (List.mem_of_getElem? found))
  refine ⟨?_, ?_, ?_, ?_⟩
  · have sum := Rows.sum_map_set (f := t.owed s.db.calls) (g := t.owed s'.db.calls) entry
      (.awaits s.db.calls.length) (by
        intro k mode _ found
        cases mode with
        | owes n => rfl
        | awaits j => rw [Tally.owed, Tally.owed, kept j (h.made j (List.mem_of_getElem? found))])
    have balance := h.balance
    rw [messages, done]
    simp only [Tally.owed, last, Option.map_some, Option.getD_some, worthless] at sum
    omega
  · intro k k' j hk hk'
    rw [List.getElem?_set] at hk hk'
    split at hk
    · split at hk'
      · next eq eq' => rw [← eq, ← eq']
      · split at hk
        · cases hk
          exact absurd hk' (unopened k')
        · cases hk
    · split at hk'
      · split at hk'
        · cases hk'
          exact absurd hk (unopened k)
        · cases hk'
      · exact h.apart k k' j hk hk'
  · intro j mem
    rw [calls, List.length_append]
    rcases List.mem_or_eq_of_mem_set mem with mem | eq
    · exact Nat.lt_add_right 1 (h.made j mem)
    · cases eq
      exact Nat.lt_succ_self _
  · intro j c' hc untold
    rcases Nat.lt_or_ge j s.db.calls.length with earlier | new
    · rw [kept j earlier] at hc
      obtain ⟨k, found⟩ := List.mem_iff_getElem?.mp (h.awaited j c' hc untold)
      have ne : i ≠ k := by
        rintro rfl
        cases entry.symm.trans found
      exact List.mem_of_getElem? ((List.getElem?_set_ne ne).trans found)
    · have bound := (List.getElem?_eq_some_iff.mp hc).1
      rw [calls, List.length_append, List.length_singleton] at bound
      obtain rfl : j = s.db.calls.length := by omega
      exact List.mem_set (List.getElem?_eq_some_iff.mp entry).1 _

/-- A step of a `Create`: what it earns it has stored, and nothing more once its caller was told. -/
theorem Account.moved {s s' : Env codec} {modes : List Mode} (h : Account t base s modes) {j : Nat}
    {c c' : Call codec.Payload} (hc : s.db.calls[j]? = some c)
    (calls : s'.db.calls = s.db.calls.set j c') (done : t.done s' = t.done s)
    (earned : t.stored s'.db.tables.messages +
      t.worth c = t.stored s.db.tables.messages + t.worth c')
    (told : c.result ≠ none → t.worth c' = t.worth c ∧ c'.result ≠ none) :
    Account t base s' modes := by
  have bound : j < s.db.calls.length := (List.getElem?_eq_some_iff.mp hc).1
  have other : ∀ mode, mode ≠ .awaits j → t.owed s'.db.calls mode = t.owed s.db.calls mode := by
    intro mode ne
    cases mode with
    | owes n => rfl
    | awaits j' =>
      have apart : j ≠ j' := fun eq => ne (congrArg Mode.awaits eq.symm)
      rw [Tally.owed, Tally.owed, calls, List.getElem?_set_ne apart]
  refine ⟨?_, h.apart, ?_, ?_⟩
  · have balance := h.balance
    rw [done]
    by_cases mine : .awaits j ∈ modes
    · obtain ⟨i, entry⟩ := List.mem_iff_getElem?.mp mine
      have sum :=
        Rows.sum_map_set (f := t.owed s.db.calls) (g := t.owed s'.db.calls) entry (.awaits j) (by
        intro k mode ne found
        refine other mode ?_
        rintro rfl
        exact ne (h.apart k i j found entry))
      have same : modes.set i (.awaits j) = modes := by
        rw [← (List.getElem?_eq_some_iff.mp entry).2, List.set_getElem_self]
      rw [same] at sum
      rw [Tally.owed, Tally.owed, hc, calls, List.getElem?_set_self bound, Option.map_some,
        Option.map_some,
        Option.getD_some, Option.getD_some, ← calls] at sum
      omega
    · have same : modes.map (t.owed s'.db.calls) = modes.map (t.owed s.db.calls) :=
        List.map_congr_left fun mode mem => other mode (ne_of_mem_of_not_mem mem mine)
      have settled := (told fun untold => mine (h.awaited j c hc untold)).1
      rw [same]
      omega
  · intro j' mem
    rw [calls, List.length_set]
    exact h.made j' mem
  · intro j' d hd untold
    rw [calls] at hd
    by_cases own : j = j'
    · subst own
      cases (List.getElem?_set_self bound).symm.trans hd
      exact h.awaited j c hc (by_contra fun was => (told was).2 untold)
    · rw [List.getElem?_set_ne own] at hd
      exact h.awaited j' d hd untold

/-- A step that concerns neither the messages nor the calls. -/
theorem Account.still {s s' : Env codec} {modes : List Mode} (h : Account t base s modes)
    (calls : s'.db.calls = s.db.calls) (messages : s'.db.tables.messages = s.db.tables.messages)
    (done : t.done s' = t.done s) : Account t base s' modes where
  balance := by rw [calls, messages, done, h.balance]
  apart := h.apart
  made := calls.symm ▸ h.made
  awaited := calls.symm ▸ h.awaited

/-- What a call does for the effects. -/
theorem respond_done {s s' : Env codec} {caller : Nat × Incoming} {e : Effect} {answer : Answer}
    {r : e.Result} (h : respond cfg s caller e answer = some (r, s'))
    (written : ∀ event text, e = .record event text → answer = .failed →
      t.recorded event text = 0) :
    t.done s' = t.done s + t.paid e := by
  cases e with
  | submit text key =>
    simp only [respond] at h
    obtain ⟨db, _, eq⟩ := Option.map_eq_some_iff.mp h
    cases eq
    rfl
  | await call =>
    simp only [respond] at h
    obtain ⟨_, _, eq⟩ := Option.map_eq_some_iff.mp h
    cases eq
    rfl
  | list | cacheGet | cacheSet | cacheDelete => cases answer <;> cases h <;> rfl
  | count =>
    cases h
    simp only [Tally.done, Tally.paid, Nat.mul_add, Nat.mul_one]
    omega
  | record event text =>
    cases answer with
    | failed =>
      cases h
      simp only [Tally.paid, written event text rfl rfl, Nat.add_zero]
    | ok | lost =>
      cases h
      simp only [Tally.done, Tally.paid, List.map_append, List.map_cons, List.map_nil,
        List.sum_append,
        List.sum_singleton, Nat.add_assoc]

/-! ## The steps of a `Create` -/

theorem start_worth (text key : String) (targets : List String) (now : Time) (begun : Bool) :
    t.worth (Call.start text key targets now begun : Call codec.Payload) = 0 := by
  simp only [Call.start, Tally.worth, Call.result]
  cases validateText text with
  | error err => rfl
  | ok _ => cases begun <;> rfl

/-- A request opens a `Create`. -/
theorem Account.submitted {s s' : Env codec} {modes : List Mode} (h : Account t base s modes)
    {i : Nat} (entry : modes[i]? = some (.owes 0)) {caller : Nat × Incoming} {text key : String}
    {answer : Answer} {r : Nat}
    (answers : respond cfg s caller (.submit text key) answer = some (r, s'))
    (done : t.done s' = t.done s) :
    Account t base s' (modes.set i (.awaits r)) := by
  simp only [respond] at answers
  obtain ⟨db, hstep, eq⟩ := Option.map_eq_some_iff.mp answers
  cases hstep
  cases eq
  exact h.opened entry rfl rfl done (start_worth text key cfg.targets s.db.now _)

/-- A request takes the result of its `Create`. -/
theorem Account.taken {s s' : Env codec} {modes : List Mode} (h : Account t base s modes)
    {i call : Nat} (entry : modes[i]? = some (.awaits call)) {caller : Nat × Incoming}
    {answer : Answer} {r : Except Err Message}
    (answers : respond cfg s caller (.await call) answer = some (r, s')) :
    Account t base s' (modes.set i (.owes (t.gain r))) := by
  simp only [respond] at answers
  obtain ⟨result, found, eq⟩ := Option.map_eq_some_iff.mp answers
  cases eq
  obtain ⟨c, hc, told⟩ := Option.bind_eq_some_iff.mp found
  refine h.turn entry rfl ?_ ?_
  · rw [Tally.owed, hc, Option.map_some, Option.getD_some, Tally.worth, told]
    rfl
  · rintro j d ⟨⟩ hd
    obtain rfl : c = d := Option.some.inj (hc.symm.trans hd)
    rw [told]
    exact Option.some_ne_none _

/-- The commit of a transaction that has read its row only. -/
def rereads {P : Type} : Phase P → Bool
  | .replaying _ => true
  | _ => false

/-- The commit that the caller has been told of as an error. -/
def doubtful {P : Type} : Phase P → Bool
  | .inDoubt => true
  | _ => false

theorem insertMessage_untold (c : Call codec.Payload) (db : Tables codec.Payload) :
    (c.insertMessage codec db).1.messages = db.messages ∧
    (c.insertMessage codec db).2.result = none := by
  rcases c.insertMessage_cases db with eq | ⟨_, eq⟩ | ⟨_, phase, eq, rfl | ⟨payload, _, rfl⟩⟩
  all_goals
    rw [eq]
    exact ⟨rfl, rfl⟩

theorem selectMessage_untold (c : Call codec.Payload) (db : Tables codec.Payload) :
    (c.selectMessage db).result = none := by
  unfold Call.selectMessage
  split
  · rfl
  · split <;> rfl

theorem insertOutbox_untold (c : Call codec.Payload) (db : Tables codec.Payload) (m : Message)
    (payload : codec.Payload) (target : String) (rest : List String) :
    (c.insertOutbox db m payload target rest).result = none := by
  unfold Call.insertOutbox
  split
  · rfl
  · split <;> rfl

/-- A statement stores nothing and earns nothing; or it is the commit, and the call earns what it
stores. -/
theorem exec_worth (c : Call codec.Payload) (db : Tables codec.Payload) (answer : Answer)
    (fresh : answer = .ok → rereads c.phase = false)
    (reported : answer ≠ .failed → doubtful c.phase = false) :
    ((c.exec codec db answer).1.messages = db.messages ∧
      t.worth (c.exec codec db answer).2 = t.worth c ∧
      (c.result ≠ none → (c.exec codec db answer).2.result ≠ none)) ∨
    ∃ m payload, c.phase = .enqueueing m payload [] ∧
    c.exec codec db answer = (c.publish db, c.settle (.ok m)) := by
  cases hp : c.phase with
  | inserting =>
    have untold : c.result = none := by rw [Call.result, hp]
    left
    cases answer with
    | failed | lost => simp [Call.exec, hp, Call.fail, Tally.worth, Call.result]
    | ok => simp [Call.exec, hp, insertMessage_untold, Tally.worth, untold]
  | selecting =>
    have untold : c.result = none := by rw [Call.result, hp]
    left
    cases answer with
    | failed | lost => simp [Call.exec, hp, Call.fail, Tally.worth, Call.result]
    | ok => simp [Call.exec, hp, selectMessage_untold, Tally.worth, untold]
  | replaying m =>
    left
    cases answer with
    | ok => exact absurd (fresh rfl) (by simp [hp, rereads])
    | failed | lost => simp [Call.exec, hp, Call.fail, Tally.worth, Call.result]
  | enqueueing m payload rest =>
    have untold : c.result = none := by rw [Call.result, hp]
    cases rest with
    | cons target rest =>
      left
      cases answer with
      | failed | lost => simp [Call.exec, hp, Call.fail, Tally.worth, Call.result]
      | ok => simp [Call.exec, hp, insertOutbox_untold, Tally.worth, untold]
    | nil =>
      cases answer with
      | ok => exact .inr ⟨m, payload, rfl, by simp only [Call.exec, hp]⟩
      | failed => simp [Call.exec, hp, Call.fail, Tally.worth, Call.result]
      | lost => simp [Call.exec, hp, Tally.worth, Call.result, Tally.gain]
  | inDoubt =>
    left
    cases answer with
    | failed => simp [Call.exec, hp, Call.discard, Tally.worth, Call.result]
    | ok | lost => exact absurd (reported (by decide)) (by simp [hp, doubtful])
  | aborting err =>
    left
    simp [Call.exec, hp, Call.discard, Tally.worth, Call.result, Tally.gain]
  | finished result =>
    left
    simp [Call.exec, hp]

/-- A statement of a `Create`. -/
theorem Account.exec {s s' : Env codec} {modes : List Mode} (h : Account t base s modes)
    (consistent : Consistent s.db) {j : Nat} {answer : Answer} {c : Call codec.Payload}
    (hc : s.db.calls[j]? = some c) (fresh : answer = .ok → rereads c.phase = false)
    (reported : answer ≠ .failed → doubtful c.phase = false)
    (tables : s'.db.tables = (c.exec codec s.db.tables answer).1)
    (calls : s'.db.calls = s.db.calls.set j (c.exec codec s.db.tables answer).2)
    (done : t.done s' = t.done s) : Account t base s' modes := by
  rcases exec_worth (t := t) c s.db.tables answer fresh reported
    with ⟨messages, same, told⟩ | ⟨m, payload, hp, eq⟩
  · refine h.moved hc calls done ?_ fun was => ⟨same, told was⟩
    rw [tables, messages, same]
  · have position := (consistent.calls c (List.mem_of_getElem? hc)).position
    rw [hp] at position
    have writing := position.1
    have untold : c.result = none := by rw [Call.result, hp]
    have row : s'.db.tables.messages = s.db.tables.messages ++ [c.messageRow m.id] := by
      rw [tables, eq]
      simp only [Call.publish, writing.pending, Option.toList]
    have text : m.text = (c.messageRow m.id).text := congrArg Message.text writing.message
    rw [eq] at calls
    refine h.moved hc calls done ?_ fun was => absurd untold was
    rw [row, Tally.worth, untold]
    simp only [Tally.stored, List.map_append, List.map_cons, List.map_nil, List.sum_append,
      List.sum_singleton,
      Tally.worth, Call.result, Call.settle, Option.map_some, Option.map_none, Option.getD_some,
      Option.getD_none,
      Tally.gain, text, Nat.add_zero]

theorem crash_worth (c : Call codec.Payload) :
    t.worth c.crash = t.worth c ∧ (c.result ≠ none → c.crash.result ≠ none) := by
  cases hp : c.phase with
  | inDoubt | finished => simp [Call.crash, hp]
  | inserting | selecting | replaying | enqueueing | aborting =>
    simp [Call.crash, hp, Call.discard, Tally.worth, Call.result, Tally.gain]

theorem Account.crash {s s' : Env codec} {modes : List Mode} (h : Account t base s modes) {j : Nat}
    {c : Call codec.Payload} (hc : s.db.calls[j]? = some c) (tables : s'.db.tables = s.db.tables)
    (calls : s'.db.calls = s.db.calls.set j c.crash) (done : t.done s' = t.done s) :
    Account t base s' modes := by
  obtain ⟨same, told⟩ := crash_worth (t := t) c
  refine h.moved hc calls done ?_ fun was => ⟨same, told was⟩
  rw [tables, same]

/-! ## Runs -/

/-- A step of the app. -/
abbrev Step := Move Incoming Answer Quiet

/-- A `Create` is committed after its caller was told of an error. -/
def unreported (w : State codec) : Step → Bool
  | .background (.store (.exec j answer)) =>
    answer ≠ .failed && (w.env.db.calls[j]?).any fun c => doubtful c.phase
  | _ => false

/-- A `Create` succeeds with a row that was stored before. -/
def replays (w : State codec) : Step → Bool
  | .background (.store (.exec j answer)) =>
    answer = .ok && (w.env.db.calls[j]?).any fun c => rereads c.phase
  | _ => false

/-- A write to the audit log fails. -/
def unwritten (w : State codec) : Step → Bool
  | .go i .failed =>
    match w.procs[i]? with
    | some (_, .call (.record _ _) _) => true
    | _ => false
  | _ => false

/-- A request comes in over gRPC. -/
def overRpc : Step → Bool
  | .arrive q => q.rpc
  | _ => false

/-- The runs from `s` without the steps `excluded`. -/
def runsWithout (cfg : Handlers.Config) (s : Env codec) (excluded : State codec → Step → Bool) :
    System (State codec) Step :=
  ((machine codec cfg).system (· = s)).restrict fun w mv => excluded w mv = false

variable {s : Env codec} {excluded : State codec → Step → Bool}

theorem runsWithout_app (fresh : Fresh s) {w : State codec}
    (h : (runsWithout cfg s excluded).Reachable w) :
    (app codec cfg).Reachable w := by
  obtain ⟨w₀, ⟨rfl, procs, answered⟩, run⟩ := h.of_restrict
  exact ⟨w₀, ⟨fresh, procs, answered⟩, run⟩

/-- A move of the environment by itself. -/
theorem Account.background {w : State codec} {b : Quiet} {s' : Env codec} {modes : List Mode}
    (h : Account t base w.env modes) (consistent : Consistent w.env.db)
    (reported : unreported w (.background b) = false) (fresh : replays w (.background b) = false)
    (moves : App.background w.env b = some s') : Account t base s' modes := by
  obtain ⟨elapsed, _, rfl⟩ | ⟨e, db, rfl, noCreate, hstep, rfl⟩ := background_cases moves
  · exact h.still rfl rfl rfl
  · cases e with
    | exec j answer =>
      obtain ⟨c, hc, _, rfl⟩ := step_exec hstep
      simp only [unreported, hc, Option.any_some, Bool.and_eq_false_imp,
        decide_eq_true_eq] at reported
      simp only [replays, hc, Option.any_some, Bool.and_eq_false_imp, decide_eq_true_eq] at fresh
      exact h.exec consistent hc fresh reported rfl rfl rfl
    | crash j =>
      obtain ⟨c, hc, rfl⟩ := step_crash hstep
      exact h.crash hc rfl rfl rfl
    | tick | migrate | create | claim | complete | retry =>
      obtain ⟨messages, calls⟩ := still_of_step consistent rfl noCreate hstep
      exact h.still calls messages rfl

/-- **The account of a run.** -/
theorem accounted (fresh : Fresh s)
    (stores : ∀ w b, excluded w (.background b) = false → unreported w (.background b) = false ∧
      replays w (.background b) = false)
    (pays : ∀ w q, excluded w (.arrive q) = false → ∀ text, t.earned text = t.counted +
      t.logged (q.audits cfg) text)
    (written : ∀ w i q event text k, w.procs[i]? = some (q, .call (.record event text) k) →
      excluded w (.go i .failed) = false → t.recorded event text = 0)
    {w : State codec} (h : (runsWithout cfg s excluded).Reachable w) :
    ∃ modes, Account t (t.stored s.db.tables.messages) w.env modes ∧
      Tracks (discipline t) (fun _ => Left 0) modes w.procs := by
  refine tracked (fun _ => .owes 0) (Account t (t.stored s.db.tables.messages)) ?_ ?_ ?_ ?_ ?_ h
  · rintro _ rfl
    obtain ⟨initial, _, created, audit, _⟩ := fresh
    refine ⟨?_, nofun, nofun, ?_⟩
    · simp only [Tally.done, created, audit, List.map_nil, List.sum_nil, Nat.mul_zero, Nat.add_zero]
    · intro j c hc
      rw [initial.calls] at hc
      cases hc
  · intro w q admitted
    exact serve_follows q (pays w q admitted)
  · rintro w q _ modes _ env ⟨⟩
    exact env.arrive
  · intro w i answer q e k r s' modes mode onward reached admitted runs env entry allowed answers
    replace answers : respond cfg w.env (i, q) e answer = some (r, s') := answers
    have done : t.done s' = t.done w.env + t.paid e := by
      refine respond_done answers ?_
      rintro event text rfl rfl
      exact written w i q event text k runs admitted
    cases disciplined allowed with
    | submit text key => exact env.submitted entry answers done
    | await call => exact env.taken entry answers
    | pay n other =>
      have db : s'.db = w.env.db := by
        rcases respond_db answers with ⟨db, _⟩ | ⟨text, key, rfl, _⟩
        · exact db
        · cases other
      refine env.turn entry db ?_ ?_
      · rw [done, Tally.owed, Nat.add_assoc]
      · intro j c eq
        cases eq
  · intro w b s' modes reached admitted env moves
    have consistent := app_consistent (runsWithout_app fresh reached)
    exact env.background consistent (stores w b admitted).1 (stores w b admitted).2 moves

/-- Once every request is answered, nothing is owed. -/
theorem Account.idle {modes : List Mode} {w : State codec} (account : Account t base w.env modes)
    (tracks : Tracks (discipline t) (fun _ => Left 0) modes w.procs) (idle : w.Idle) :
    base + t.done w.env = t.stored w.env.db.tables.messages := by
  have nothing : (modes.map (t.owed w.env.db.calls)).sum = 0 := by
    refine List.sum_eq_zero_iff_forall_eq_nat.mpr fun n mem => ?_
    obtain ⟨mode, entry, rfl⟩ := List.mem_map.mp mem
    obtain ⟨_, _, _, left⟩ := tracks.idle idle entry
    rw [show mode = .owes 0 from left]
    rfl
  have balance := account.balance
  rwa [nothing, Nat.add_zero] at balance

/-- The rows a run has added. -/
theorem inserted (fresh : Fresh s) {w : State codec}
    (h : (runsWithout cfg s excluded).Reachable w) :
    ∃ rows, w.env.db.tables.messages = s.db.tables.messages ++ rows := by
  have grows : s.db.tables.messages <+: w.env.db.tables.messages := by
    refine h.invariant (I := fun w => s.db.tables.messages <+: w.env.db.tables.messages) ?_ ?_
    · rintro w ⟨rfl, _⟩
      exact List.prefix_rfl
    · intro w mv w' reached grows hstep
      have db := app_simulates.reachable (runsWithout_app fresh reached)
      exact grows.trans (extends_run db (step_db_runs hstep.2))
  obtain ⟨rows, eq⟩ := grows
  exact ⟨rows, eq.symm⟩

/-! ## The counter and the audit log -/

/-- The counter: every increment counts, and a stored message is to have one. -/
def counter : Tally := ⟨1, fun _ _ => 0, fun _ => 1⟩

/-- The creation entries of a text: each message stored with it is to have one. -/
def entries (text : String) : Tally where
  counted := 0
  recorded event entry := if event = createdEntry ∧ entry = text then 1 else 0
  earned stored := if stored = text then 1 else 0

/-- The texts of the creation entries. -/
def created (audit : List AuditEntry) : List String :=
  (audit.filter fun entry => entry.event = createdEntry).map AuditEntry.text

theorem counter_done (s : Env codec) : counter.done s = s.created := by
  have none : (s.audit.map fun entry => counter.recorded entry.event entry.text).sum = 0 := by
    refine List.sum_eq_zero_iff_forall_eq_nat.mpr fun n mem => ?_
    obtain ⟨_, _, rfl⟩ := List.mem_map.mp mem
    rfl
  rw [Tally.done, none, Nat.add_zero, show counter.counted = 1 from rfl, Nat.one_mul]

theorem counter_stored (rows : List MessageRow) : counter.stored rows = rows.length := by
  induction rows with
  | nil => rfl
  | cons row rest ih =>
    rw [Tally.stored, List.map_cons, List.sum_cons, List.length_cons, Nat.add_comm]
    exact congrArg (· + 1) ih

theorem entries_done (text : String) (s : Env codec) :
    (entries text).done s = (created s.audit).count text := by
  rw [Tally.done, show (entries text).counted = 0 from rfl, Nat.zero_mul, Nat.zero_add, created,
    List.count_eq_countP, List.countP_map, List.countP_filter]
  refine (Rows.sum_map_ite _ s.audit).trans (List.countP_congr fun entry _ => ?_)
  simp [and_comm]

theorem entries_stored (text : String) (rows : List MessageRow) :
    (entries text).stored rows = (rows.map MessageRow.text).count text := by
  rw [Tally.stored, List.count_eq_countP, List.countP_map]
  refine (Rows.sum_map_ite _ rows).trans (List.countP_congr fun row _ => ?_)
  simp

/-- The runs in which a `Create` stores a row exactly if it succeeds. -/
def storing (cfg : Handlers.Config) (s : Env codec) : System (State codec) Step :=
  runsWithout cfg s fun w mv => unreported w mv || replays w mv

/-- Those of them over HTTP alone, in which every write to the audit log succeeds. -/
def logging (cfg : Handlers.Config) (s : Env codec) : System (State codec) Step :=
  runsWithout cfg s fun w mv => (unreported w mv || replays w mv) || (unwritten w mv || overRpc mv)

theorem counted {w : State codec} (fresh : Fresh s) (h : (storing cfg s).Reachable w)
    (idle : w.Idle) :
    s.db.tables.messages.length + w.env.created = w.env.db.tables.messages.length := by
  have account : ∃ modes, Account counter (counter.stored s.db.tables.messages) w.env modes ∧
      Tracks (discipline counter) (fun _ => Left 0) modes w.procs := by
    refine accounted fresh ?_ ?_ ?_ h
    · intro w b admitted
      exact Bool.or_eq_false_iff.mp admitted
    · intro w q _ text
      rw [Tally.logged, show counter.recorded createdEntry text = 0 from rfl, ite_self]
      rfl
    · intros
      rfl
  obtain ⟨modes, account, tracks⟩ := account
  have level := account.idle tracks idle
  rwa [counter_done, counter_stored, counter_stored] at level

theorem logged {w : State codec} (fresh : Fresh s) (audited : cfg.audited = true)
    (h : (logging cfg s).Reachable w) (idle : w.Idle) (text : String) :
    (s.db.tables.messages.map MessageRow.text).count text + (created w.env.audit).count text =
      (w.env.db.tables.messages.map MessageRow.text).count text := by
  have account : ∃ modes,
      Account (entries text) ((entries text).stored s.db.tables.messages) w.env modes ∧
        Tracks (discipline (entries text)) (fun _ => Left 0) modes w.procs := by
    refine accounted fresh ?_ ?_ ?_ h
    · intro w b admitted
      exact Bool.or_eq_false_iff.mp (Bool.or_eq_false_iff.mp admitted).1
    · intro w q admitted stored
      have http : q.rpc = false := (Bool.or_eq_false_iff.mp (Bool.or_eq_false_iff.mp admitted).2).2
      simp only [Tally.logged, Incoming.audits, audited, http, entries, Bool.not_false,
        Bool.and_true, if_true,
        true_and, Nat.zero_add]
    · intro w i q event entry k runs admitted
      have written := (Bool.or_eq_false_iff.mp (Bool.or_eq_false_iff.mp admitted).2).1
      simp only [unwritten, runs, Bool.true_eq_false] at written
  obtain ⟨modes, account, tracks⟩ := account
  have level := account.idle tracks idle
  rwa [entries_done, entries_stored, entries_stored] at level

/-- **Each effect once.** Where a `Create` stores a row exactly if it succeeds, the counter has
grown by the number of rows stored once all requests are answered. Over HTTP, with an audit log that
takes every entry, its creation entries are those of the rows stored. -/
theorem effects_once (fresh : Fresh s) :
    (∀ w, (storing cfg s).Reachable w → w.Idle →
      ∃ rows, w.env.db.tables.messages = s.db.tables.messages ++ rows ∧
      w.env.created = rows.length) ∧
    (cfg.audited = true → ∀ w, (logging cfg s).Reachable w → w.Idle →
      ∃ rows, w.env.db.tables.messages = s.db.tables.messages ++ rows ∧
        (created w.env.audit).Perm (rows.map MessageRow.text)) := by
  refine ⟨fun w reached idle => ?_, fun audited w reached idle => ?_⟩
  · obtain ⟨rows, added⟩ := inserted fresh reached
    have level := counted fresh reached idle
    rw [added, List.length_append] at level
    exact ⟨rows, added, by omega⟩
  · obtain ⟨rows, added⟩ := inserted fresh reached
    refine ⟨rows, added, List.perm_iff_count.mpr fun text => ?_⟩
    have level := logged fresh audited reached idle text
    rw [added, List.map_append, List.count_append] at level
    omega

/-- An app with an audit log, and neither a broker nor a cache. -/
def auditedApp : Handlers.Config := ⟨Handlers.plainJson, [], false, true, false⟩

/-- A message over HTTP. -/
def posting (key : String) (byte : UInt8) : Step :=
  .arrive (.post ⟨"POST", "/messages", Header.empty.set "Idempotency-Key" key, [byte], ""⟩
    true false)

/-- The next statements of a `Create`, with their answers. -/
def statements (j : Nat) (answers : List Answer) : List Step :=
  answers.map fun answer => .background (.store (.exec j answer))

/-- The next calls of a request, all answered. -/
def turns (i n : Nat) : List Step := List.replicate n (.go i .ok)

/-- A message over HTTP, and a second one whose transaction is rolled back when its caller already
has an error. -/
def rolledBack : List Step :=
  posting "" 97 :: turns 0 1 ++ statements 0 [.ok, .ok] ++ turns 0 3 ++
    posting "" 98 :: turns 1 1 ++ statements 1 [.ok, .lost] ++ turns 1 1 ++ statements 1 [.failed]

/-- A replay without excluded steps that starts with the app. -/
theorem reached_without {excluded : State plainCodec → Step → Bool} {steps : List Step}
    {w : State plainCodec}
    (h : System.replay (fun w mv => if !excluded w mv then (machine plainCodec auditedApp).step w mv
      else none) startedApp steps = some w) :
    (runsWithout auditedApp startedApp.env excluded).Reachable w := by
  refine ⟨startedApp, ⟨rfl, rfl, rfl⟩, System.Runs.of_checked ?_ h⟩
  intro w mv admitted
  exact (Bool.not_eq_true' _).mp admitted

theorem effects_once_rolledBack :
    (∃ w, (storing auditedApp startedApp.env).Reachable w ∧ w.Idle ∧
      w.env.db.tables.messages.length = 2 ∧ w.env.created = 2) ∧
    ∃ w, (logging auditedApp startedApp.env).Reachable w ∧ w.Idle ∧ w.env.db.calls.length = 2 ∧
      w.env.db.tables.messages.length = 1 ∧
      created w.env.audit = w.env.db.tables.messages.map MessageRow.text := by
  obtain ⟨counts, logs⟩ := @effects_once plainCodec auditedApp startedApp.env fresh_startedApp
  constructor
  · have replayed : ∃ w, System.replay (fun w mv => if !(unreported w mv || replays w mv) then
        (machine plainCodec auditedApp).step w mv else none) startedApp
        (rolledBack ++ .arrive (.unary Header.empty "c" true) :: turns 2 1 ++
          statements 2 [.ok, .ok] ++
          turns 2 2) = some w ∧
        w.procs.all (fun p => Pool.returned p.2) = true ∧ w.env.db.tables.messages.length = 2 :=
      ⟨_, rfl, rfl, rfl⟩
    obtain ⟨w, run, done, two⟩ := replayed
    have idle := Pool.idle_of_returned done
    obtain ⟨rows, added, level⟩ := counts w (reached_without run) idle
    refine ⟨w, reached_without run, idle, two, ?_⟩
    rw [level, ← two, added]
    rfl
  · have replayed : ∃ w, System.replay (fun w mv =>
        if !((unreported w mv || replays w mv) || (unwritten w mv || overRpc mv)) then
          (machine plainCodec auditedApp).step w mv else none) startedApp rolledBack = some w ∧
        w.procs.all (fun p => Pool.returned p.2) = true ∧ w.env.db.calls.length = 2 ∧
        w.env.db.tables.messages.length = 1 := ⟨_, rfl, rfl, rfl, rfl⟩
    obtain ⟨w, run, done, calls, one⟩ := replayed
    have idle := Pool.idle_of_returned done
    obtain ⟨rows, added, same⟩ := logs rfl w (reached_without run) idle
    obtain rfl : w.env.db.tables.messages = rows := added
    obtain ⟨row, only⟩ := List.length_eq_one_iff.mp one
    rw [only] at same
    refine ⟨w, reached_without run, idle, calls, one, ?_⟩
    rw [only]
    exact List.perm_singleton.mp same

/-! ## Where they are not -/

/-- All runs in which a failed transaction is not committed and the audit log takes every entry. -/
def unfailing (cfg : Handlers.Config) (s : Env codec) : System (State codec) Step :=
  runsWithout cfg s fun w mv => unreported w mv || unwritten w mv

/-- **Twice, and not at all.** A request that is repeated under its key counts again and is logged
again, though it stores nothing; and a message stored over gRPC is not logged. -/
theorem effects_repeated :
    (∃ w, (unfailing auditedApp startedApp.env).Reachable w ∧ w.Idle ∧
      w.env.db.tables.messages.map MessageRow.text = ["a"] ∧ w.env.created = 2 ∧
      w.env.audit.map AuditEntry.text = ["a", "a"]) ∧
    ∃ w, (unfailing auditedApp startedApp.env).Reachable w ∧ w.Idle ∧
      w.env.db.tables.messages.map MessageRow.text = ["a"] ∧ w.env.created = 1 ∧
      w.env.audit = [] := by
  constructor
  · have replayed : ∃ w, System.replay (fun w mv => if !(unreported w mv || unwritten w mv) then
        (machine plainCodec auditedApp).step w mv else none) startedApp
        (posting "k" 97 :: turns 0 1 ++ statements 0 [.ok, .ok] ++ turns 0 3 ++
          posting "k" 97 :: turns 1 1 ++ statements 1 [.ok, .ok, .ok] ++ turns 1 3) = some w ∧
        w.procs.all (fun p => Pool.returned p.2) = true ∧
        w.env.db.tables.messages.map MessageRow.text = ["a"] ∧ w.env.created = 2 ∧
        w.env.audit.map AuditEntry.text = ["a", "a"] := ⟨_, rfl, rfl, rfl, rfl, rfl⟩
    obtain ⟨w, run, done, rest⟩ := replayed
    exact ⟨w, reached_without run, Pool.idle_of_returned done, rest⟩
  · have replayed : ∃ w, System.replay (fun w mv => if !(unreported w mv || unwritten w mv) then
        (machine plainCodec auditedApp).step w mv else none) startedApp
        (.arrive (.unary Header.empty "a" true) :: turns 0 1 ++ statements 0 [.ok, .ok] ++
          turns 0 2) = some w ∧
        w.procs.all (fun p => Pool.returned p.2) = true ∧
        w.env.db.tables.messages.map MessageRow.text = ["a"] ∧ w.env.created = 1 ∧
          w.env.audit = [] :=
      ⟨_, rfl, rfl, rfl, rfl, rfl⟩
    obtain ⟨w, run, done, rest⟩ := replayed
    exact ⟨w, reached_without run, Pool.idle_of_returned done, rest⟩

end OtusApp.App
