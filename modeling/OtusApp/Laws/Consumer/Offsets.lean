import OtusApp.Consumer.Group
import OtusApp.Laws.Resilience.Retry
import Mathlib.Data.List.Basic

/-!
# No record is skipped

A commit confirms its record and everything before it, so a record read past a failed one would
confirm the failed one too. What prevents it is that a session ends at the first failure: whatever a
session's position has passed is handled, but for the record in its hands (`Member.Good`). A new
session, and a new assignment, begin at the group's offset, and what that has passed is handled
(`Confirmed`). Commits that land late, twice or out of order set an offset the group had a right to.

The premises on the client library are in the step: positions begin at the committed offset, records
arrive in the order of their offsets, and a commit at an offset sets the group's offset one past it.
-/

namespace OtusApp.Consumer

open Messaging Transition Go Resilience

variable {codec : EventCodec}

/-! ## Logs -/

theorem le_logEnd {P : Type} {log : List (Record P)} {r : Record P} (h : r ∈ log) :
    r.offset + 1 ≤ logEnd log := by
  induction log with
  | nil => cases h
  | cons x rest ih =>
    rw [logEnd, List.foldr_cons]
    rcases List.mem_cons.mp h with rfl | h
    · exact Nat.le_max_left _ _
    · exact Nat.le_trans (ih h) (Nat.le_max_right _ _)

theorem logEnd_append {P : Type} (log rest : List (Record P)) :
    logEnd log ≤ logEnd (log ++ rest) := by
  induction log with
  | nil => exact Nat.zero_le _
  | cons x log ih =>
    show max (x.offset + 1) (logEnd log) ≤ max (x.offset + 1) (logEnd (log ++ rest))
    omega

/-- In a log in the order of its offsets, the next record has every record before it behind the
position. -/
theorem nextRecord_some {P : Type} {log : List (Record P)}
    (sorted : log.Pairwise fun a b => a.offset < b.offset) {position : Nat} {r : Record P}
    (h : nextRecord log position = some r) :
    r ∈ log ∧ ∀ x ∈ log, x.offset ≤ r.offset → x.offset < position ∨ x = r := by
  obtain ⟨_, before, after, rfl, skipped⟩ := List.find?_eq_some_iff_append.mp h
  refine ⟨List.mem_append_right _ List.mem_cons_self, fun x hx le => ?_⟩
  rcases List.mem_append.mp hx with hx | hx
  · left
    have behind := skipped x hx
    simp only [Bool.not_eq_eq_eq_not, Bool.not_true, decide_eq_false_iff_not] at behind
    omega
  · rcases List.mem_cons.mp hx with rfl | hx
    · exact .inr rfl
    · have later := (List.pairwise_cons.mp (List.pairwise_append.mp sorted).2.1).1 x hx
      omega

/-! ## The invariant -/

/-- `handle` returned `nil` for the record's event. -/
def Handled (s : Group codec) (p : Nat) (r : Record codec.Payload) : Prop :=
  ∃ ev, codec.unmarshal r.value = some ev ∧ (p, r.offset, ev) ∈ s.handled

/-- Every record before the offset is handled, and no later record will come before it. -/
def Passed (s : Group codec) (p offset : Nat) : Prop :=
  offset ≤ logEnd (s.logs p) ∧ ∀ r ∈ s.logs p, r.offset < offset → Handled s p r

/-- What a member's position means: everything before it is handled but the record in its hands. -/
structure Member.Good (s : Group codec) (m : Member codec.Payload) : Prop where
  positions : m.reader.stage.live = true → ∀ p q, m.positions p = some q →
    q ≤ logEnd (s.logs p) ∧ ∀ r ∈ s.logs p, r.offset < q →
      Handled s p r ∨ ∃ ev, m.reader.stage = .handling p r ev
  handling : ∀ p r ev, m.reader.stage = .handling p r ev →
    r ∈ s.logs p ∧ codec.unmarshal r.value = some ev ∧
      ∀ x ∈ s.logs p, x.offset ≤ r.offset → Handled s p x ∨ x = r
  committing : ∀ p r, m.reader.stage = .committing p r → Passed s p (r.offset + 1)

/-- The invariant of the group. -/
structure Confirmed (s : Group codec) : Prop where
  sorted : ∀ p, (s.logs p).Pairwise fun a b => a.offset < b.offset
  committed : ∀ p, Passed s p (s.committed p)
  late : ∀ c ∈ s.late, Passed s c.1 c.2
  members : ∀ m ∈ s.members, m.Good s

/-- A topic that grew at the end of its logs, and more records handled. -/
structure Extends (s t : Group codec) : Prop where
  logs : ∀ p, ∃ new, t.logs p = s.logs p ++ new ∧ ∀ r ∈ new, logEnd (s.logs p) ≤ r.offset
  handled : ∀ c ∈ s.handled, c ∈ t.handled

theorem Extends.of_same {s t : Group codec} (logs : t.logs = s.logs)
    (handled : ∀ c ∈ s.handled, c ∈ t.handled) : Extends s t :=
  ⟨fun p => ⟨[], by rw [logs, List.append_nil], nofun⟩, handled⟩

theorem Handled.mono {s t : Group codec} (x : Extends s t) {p : Nat} {r : Record codec.Payload}
    (h : Handled s p r) : Handled t p r := by
  obtain ⟨ev, decoded, mem⟩ := h
  exact ⟨ev, decoded, x.handled _ mem⟩

/-- A record before an offset the log had reached was there already. -/
theorem Extends.old {s t : Group codec} (x : Extends s t) {p offset : Nat}
    (reached : offset ≤ logEnd (s.logs p)) {r : Record codec.Payload} (hr : r ∈ t.logs p)
    (before : r.offset < offset) : r ∈ s.logs p := by
  obtain ⟨new, eq, later⟩ := x.logs p
  rw [eq] at hr
  rcases List.mem_append.mp hr with hr | hr
  · exact hr
  · have := later r hr
    omega

theorem Extends.reached {s t : Group codec} (x : Extends s t) {p offset : Nat}
    (reached : offset ≤ logEnd (s.logs p)) : offset ≤ logEnd (t.logs p) := by
  obtain ⟨new, eq, _⟩ := x.logs p
  rw [eq]
  exact Nat.le_trans reached (logEnd_append _ _)

theorem Passed.mono {s t : Group codec} (x : Extends s t) {p offset : Nat} (h : Passed s p offset) :
    Passed t p offset := by
  obtain ⟨reached, handled⟩ := h
  refine ⟨x.reached reached, fun r hr before => ?_⟩
  exact (handled r (x.old reached hr before) before).mono x

theorem Member.Good.mono {s t : Group codec} (x : Extends s t) {m : Member codec.Payload}
    (h : m.Good s) : m.Good t := by
  refine ⟨fun live p q hq => ?_, fun p r ev hs => ?_, fun p r hs => (h.committing p r hs).mono x⟩
  · obtain ⟨reached, handled⟩ := h.positions live p q hq
    refine ⟨x.reached reached, fun r hr before => ?_⟩
    rcases handled r (x.old reached hr before) before with old | own
    · exact .inl (old.mono x)
    · exact .inr own
  · obtain ⟨mem, decoded, handled⟩ := h.handling p r ev hs
    obtain ⟨new, eq, _⟩ := x.logs p
    refine ⟨by rw [eq]; exact List.mem_append_left _ mem, decoded, fun y hy le => ?_⟩
    have reached := le_logEnd mem
    rcases handled y (x.old reached hy (by omega)) le with old | own
    · exact .inl (old.mono x)
    · exact .inr own

/-! ## One reply -/

/-- What a reply makes of a reader at a stage. -/
inductive Resumes (codec : EventCodec) (cancelled : Bool) (attempt : Nat) :
    Stage codec.Payload → Reply codec.Payload → Reader codec.Payload → Prop
  | checked : Resumes codec cancelled attempt .head .checked
      ⟨cancelled, attempt, if cancelled then .returned else .connecting⟩
  | connected (ok : Bool) : Resumes codec cancelled attempt .connecting (.connected ok)
      ⟨cancelled, attempt, if ok then .fetching else .ended⟩
  | undecoded (p : Nat) (r : Record codec.Payload) (unread : codec.unmarshal r.value = none) :
      Resumes codec cancelled attempt .fetching (.fetched p r) ⟨cancelled, attempt, .ended⟩
  | decoded (p : Nat) (r : Record codec.Payload) {ev : MessageCreated}
      (read : codec.unmarshal r.value = some ev) :
      Resumes codec cancelled attempt .fetching (.fetched p r)
        ⟨cancelled, attempt, .handling p r ev⟩
  | fetchFailed : Resumes codec cancelled attempt .fetching .fetchFailed
      ⟨cancelled, attempt, if cancelled then .ended else .sleeping⟩
  | slept : Resumes codec cancelled attempt .sleeping .slept ⟨cancelled, attempt, .fetching⟩
  | filed (p : Nat) (r : Record codec.Payload) (ev : MessageCreated) :
      Resumes codec cancelled attempt (.handling p r ev) (.handled true)
        ⟨cancelled, 0, .committing p r⟩
  | unfiled (p : Nat) (r : Record codec.Payload) (ev : MessageCreated) :
      Resumes codec cancelled attempt (.handling p r ev) (.handled false)
        ⟨cancelled, attempt, .ended⟩
  | committed (p : Nat) (r : Record codec.Payload) (ok : Bool) :
      Resumes codec cancelled attempt (.committing p r) (.committed ok)
        ⟨cancelled, attempt, if ok then .fetching else .ended⟩
  | stopped (source : Nat) (isCancelled : cancelled = true) :
      Resumes codec cancelled attempt .ended (.closed source) ⟨cancelled, attempt, .returned⟩
  | paused (source : Nat) {delay : Duration} (goesOn : cancelled = false)
      (drawn : backoff ((attempt + 1 : Nat) : Int) source = some delay) :
      Resumes codec cancelled attempt .ended (.closed source)
        ⟨cancelled, attempt + 1, .pausing delay⟩
  | waited (delay : Duration) : Resumes codec cancelled attempt (.pausing delay) .waited
      ⟨cancelled, attempt, if cancelled then .returned else .head⟩

theorem resumes {w w' : Reader codec.Payload} {reply : Reply codec.Payload}
    (h : w.resume codec reply = some w') :
    Resumes codec w.cancelled w.attempt w.stage reply w' := by
  obtain ⟨cancelled, attempt, stage⟩ := w
  cases stage <;> cases reply <;> try cases h
  case head.checked => exact .checked
  case connecting.connected ok => exact .connected ok
  case fetching.fetched p r =>
    simp only [Reader.resume] at h
    cases decoded : codec.unmarshal r.value with
    | none =>
      rw [decoded] at h
      cases h
      exact .undecoded p r decoded
    | some ev =>
      rw [decoded] at h
      cases h
      exact .decoded p r decoded
  case fetching.fetchFailed => exact .fetchFailed
  case sleeping.slept => exact .slept
  case handling.handled p r ev ok =>
    cases ok with
    | true =>
      cases h
      exact .filed p r ev
    | false =>
      cases h
      exact .unfiled p r ev
  case committing.committed p r ok => exact .committed p r ok
  case ended.closed source =>
    cases cancelled with
    | true =>
      cases h
      exact .stopped source rfl
    | false =>
      obtain ⟨delay, drawn, _, _⟩ := backoff_between (attempt + 1) source
      simp only [Reader.resume, drawn] at h
      cases h
      exact .paused source rfl drawn
  case pausing.waited delay => exact .waited delay

/-- How a reader comes to stand inside a session. -/
theorem resume_cases {w w' : Reader codec.Payload} {reply : Reply codec.Payload}
    (h : w.resume codec reply = some w') :
    w'.stage.live = false ∨
    (reply = .connected true ∧ w'.stage = .fetching) ∨
    (∃ p r ev, w.stage = .fetching ∧ reply = .fetched p r ∧ codec.unmarshal r.value = some ev ∧
      w'.stage = .handling p r ev) ∨
    ((w.stage = .fetching ∧ w'.stage = .sleeping ∨ w.stage = .sleeping ∧ w'.stage = .fetching) ∧
      (reply = .fetchFailed ∨ reply = .slept)) ∨
    (∃ p r ev, w.stage = .handling p r ev ∧ reply = .handled true ∧ w'.stage = .committing p r) ∨
    (∃ p r, w.stage = .committing p r ∧ reply = .committed true ∧ w'.stage = .fetching) := by
  obtain ⟨cancelled, attempt, stage⟩ := w
  cases resumes h with
  | checked =>
    left
    cases cancelled <;> rfl
  | connected ok =>
    cases ok with
    | true => exact .inr (.inl ⟨rfl, rfl⟩)
    | false => exact .inl rfl
  | undecoded | unfiled | stopped | paused => exact .inl rfl
  | decoded p r read => exact .inr (.inr (.inl ⟨p, r, _, rfl, rfl, read, rfl⟩))
  | fetchFailed =>
    cases cancelled with
    | true => exact .inl rfl
    | false => exact .inr (.inr (.inr (.inl ⟨.inl ⟨rfl, rfl⟩, .inl rfl⟩)))
  | slept => exact .inr (.inr (.inr (.inl ⟨.inr ⟨rfl, rfl⟩, .inr rfl⟩)))
  | filed p r ev => exact .inr (.inr (.inr (.inr (.inl ⟨p, r, ev, rfl, rfl, rfl⟩))))
  | committed p r ok =>
    cases ok with
    | true => exact .inr (.inr (.inr (.inr (.inr ⟨p, r, rfl, rfl, rfl⟩))))
    | false => exact .inl rfl
  | waited delay =>
    left
    cases cancelled <;> rfl

/-- A member outside a session promises nothing. -/
theorem Member.Good.idle {s : Group codec} {m : Member codec.Payload}
    (idle : m.reader.stage.live = false) : m.Good s := by
  refine ⟨fun live => absurd (idle.symm.trans live) nofun, fun p r ev hs => ?_, fun p r hs => ?_⟩
  · rw [hs] at idle
    cases idle
  · rw [hs] at idle
    cases idle

/-! ## One step -/

/-- A larger state, with each member good in it. -/
theorem Confirmed.of_extends {s t : Group codec} (h : Confirmed s) (x : Extends s t)
    (sorted : ∀ p, (t.logs p).Pairwise fun a b => a.offset < b.offset)
    (committed : ∀ p, t.committed p = s.committed p ∨ Passed t p (t.committed p))
    (late : ∀ c ∈ t.late, c ∈ s.late ∨ Passed t c.1 c.2)
    (members : ∀ m ∈ t.members, m ∈ s.members ∨ m.Good t) : Confirmed t := by
  refine ⟨sorted, fun p => ?_, fun c hc => ?_, fun m hm => ?_⟩
  · rcases committed p with same | new
    · rw [same]
      exact (h.committed p).mono x
    · exact new
  · rcases late c hc with old | new
    · exact (h.late c old).mono x
    · exact new
  · rcases members m hm with old | new
    · exact (h.members m old).mono x
    · exact new

/-- A step of one member. -/
theorem Confirmed.member {s : Group codec} (h : Confirmed s) (i : Nat) {m : Member codec.Payload}
    (good : m.Good s) : Confirmed { s with members := s.members.set i m } := by
  have x : Extends s { s with members := s.members.set i m } := .of_same rfl fun _ hc => hc
  refine h.of_extends x h.sorted (fun _ => .inl rfl) (fun _ hc => .inl hc) fun m' hm' => ?_
  rcases List.mem_or_eq_of_mem_set hm' with old | rfl
  · exact .inl old
  · exact .inr (good.mono x)

theorem resume_some {s t : Group codec} {i : Nat} {reply : Reply codec.Payload}
    {positions : (Nat → Option Nat) → Nat → Option Nat}
    (h : s.resume i reply positions = some t) :
    ∃ m w', s.members[i]? = some m ∧ m.reader.resume codec reply = some w' ∧
      t = { s with members := s.members.set i ⟨w', positions m.positions⟩ } := by
  obtain ⟨m, hm, rest⟩ := Option.bind_eq_some_iff.mp h
  obtain ⟨w', resumed, eq⟩ := Option.bind_eq_some_iff.mp rest
  cases eq
  exact ⟨m, w', hm, resumed, rfl⟩

/-- A member between records stays good when it sleeps and wakes. -/
theorem Member.Good.between {s : Group codec} {m : Member codec.Payload} (good : m.Good s)
    (live : m.reader.stage.live = true) (free : ∀ p r ev, m.reader.stage ≠ .handling p r ev)
    {w' : Reader codec.Payload} (stage : w'.stage = .fetching ∨ w'.stage = .sleeping) :
    (⟨w', m.positions⟩ : Member _).Good s := by
  refine ⟨fun _ p q hq => ?_, fun p r ev hs => ?_, fun p r hs => ?_⟩
  · obtain ⟨reached, handled⟩ := good.positions live p q hq
    refine ⟨reached, fun r hr before => ?_⟩
    rcases handled r hr before with old | ⟨ev, own⟩
    · exact .inl old
    · exact absurd own (free p r ev)
  · rcases stage with hs' | hs' <;> exact absurd (hs'.symm.trans hs) nofun
  · rcases stage with hs' | hs' <;> exact absurd (hs'.symm.trans hs) nofun

/-- A reply that neither brings a record nor handles one leaves the positions as they are. -/
theorem Confirmed.plain {s t : Group codec} (h : Confirmed s) {i : Nat}
    {reply : Reply codec.Payload} (hresume : s.resume i reply id = some t)
    (connected : ∀ ok, reply ≠ .connected ok) (fetched : ∀ p r, reply ≠ .fetched p r)
    (handled : ∀ ok, reply ≠ .handled ok) : Confirmed t := by
  obtain ⟨m, w', hm, resumed, rfl⟩ := resume_some hresume
  have good := h.members m (List.mem_of_getElem? hm)
  refine h.member i ?_
  rcases resume_cases resumed with idle | ⟨eq, _⟩ | ⟨p, r, ev, _, eq, _⟩ | ⟨pair, _⟩ |
    ⟨p, r, ev, _, eq, _⟩ | ⟨p, r, hs, _, stage⟩
  · exact .idle idle
  · exact absurd eq (connected true)
  · exact absurd eq (fetched p r)
  · rcases pair with ⟨hs, stage⟩ | ⟨hs, stage⟩
    · exact good.between (by rw [hs]; rfl) (by simp [hs]) (.inr stage)
    · exact good.between (by rw [hs]; rfl) (by simp [hs]) (.inl stage)
  · exact absurd eq (handled true)
  · exact good.between (by rw [hs]; rfl) (by simp [hs]) (.inl stage)

/-- A fetched record: everything before it is behind the position, hence handled. -/
theorem Confirmed.fetch {s t : Group codec} (h : Confirmed s) {i p position : Nat}
    {m : Member codec.Payload} (hm : s.members[i]? = some m) (hq : m.positions p = some position)
    {r : Record codec.Payload} (hr : nextRecord (s.logs p) position = some r)
    (hresume : s.resume i (.fetched p r)
      (fun positions => Function.update positions p (some (r.offset + 1))) = some t) :
    Confirmed t := by
  obtain ⟨m', w', hm', resumed, rfl⟩ := resume_some hresume
  obtain rfl : m = m' := Option.some.inj (hm.symm.trans hm')
  have good := h.members m (List.mem_of_getElem? hm)
  refine h.member i ?_
  rcases resume_cases resumed with idle | ⟨eq, _⟩ | ⟨p', r', ev, hs, eq, decoded, stage⟩ |
    ⟨_, eq | eq⟩ | ⟨_, _, _, _, eq, _⟩ | ⟨_, _, _, eq, _⟩
  · exact .idle idle
  · cases eq
  · cases eq
    have live : m.reader.stage.live = true := by rw [hs]; rfl
    have behind : ∀ q x, m.positions q = some x → ∀ y ∈ s.logs q, y.offset < x → Handled s q y := by
      intro q x hx y hy before
      rcases (good.positions live q x hx).2 y hy before with old | ⟨ev, own⟩
      · exact old
      · exact absurd (hs.symm.trans own) nofun
    obtain ⟨mem, first⟩ := nextRecord_some (h.sorted p) hr
    have upTo : ∀ y ∈ s.logs p, y.offset ≤ r.offset → Handled s p y ∨ y = r := by
      intro y hy le
      rcases first y hy le with before | own
      · exact .inl (behind p position hq y hy before)
      · exact .inr own
    refine ⟨fun _ q x hx => ?_, fun p' r' ev' hs' => ?_, fun p' r' hs' => ?_⟩
    · change Function.update m.positions p (some (r.offset + 1)) q = some x at hx
      by_cases same : q = p
      · subst same
        rw [Function.update_self] at hx
        cases hx
        refine ⟨le_logEnd mem, fun y hy before => ?_⟩
        rcases upTo y hy (by omega) with old | rfl
        · exact .inl old
        · exact .inr ⟨ev, stage⟩
      · rw [Function.update_of_ne same] at hx
        refine ⟨(good.positions live q x hx).1, fun y hy before => ?_⟩
        exact .inl (behind q x hx y hy before)
    · cases stage.symm.trans hs'
      exact ⟨mem, decoded, upTo⟩
    · exact absurd (stage.symm.trans hs') nofun
  · cases eq
  · cases eq
  · cases eq
  · cases eq

/-- A handled record: its session has nothing unhandled left behind. -/
theorem Confirmed.handle {s t : Group codec} (h : Confirmed s) {i p : Nat}
    {m : Member codec.Payload} (hm : s.members[i]? = some m) {r : Record codec.Payload}
    {ev : MessageCreated} (hs : m.reader.stage = .handling p r ev) {ok : Bool}
    (hresume : { s with handled := if ok then (p, r.offset, ev) :: s.handled else s.handled }.resume
      i (.handled ok) id = some t) : Confirmed t := by
  have good := h.members m (List.mem_of_getElem? hm)
  obtain ⟨m', w', hm', resumed, rfl⟩ := resume_some hresume
  obtain rfl : m = m' := Option.some.inj (hm.symm.trans hm')
  have x : Extends s { s with
      handled := if ok then (p, r.offset, ev) :: s.handled else s.handled } := by
    refine .of_same rfl fun c hc => ?_
    show c ∈ if ok then _ else _
    split
    · exact List.mem_cons_of_mem _ hc
    · exact hc
  have h' := h.of_extends x h.sorted (fun _ => .inl rfl) (fun _ hc => .inl hc) (fun _ hm => .inl hm)
  refine h'.member i ?_
  rcases resume_cases resumed with idle | ⟨eq, _⟩ | ⟨_, _, _, _, eq, _⟩ | ⟨_, eq | eq⟩ |
    ⟨p', r', ev', hs', eq, stage⟩ | ⟨_, _, _, eq, _⟩
  · exact .idle idle
  · cases eq
  · cases eq
  · cases eq
  · cases eq
  · cases hs.symm.trans hs'
    cases eq
    obtain ⟨mem, decoded, upTo⟩ := good.handling p r ev hs
    have now : Handled { s with handled := (p, r.offset, ev) :: s.handled } p r :=
      ⟨ev, decoded, List.mem_cons_self⟩
    refine ⟨fun _ q o hq => ?_, fun p' r' ev' hs' => ?_, fun p' r' hs' => ?_⟩
    · obtain ⟨reached, handled⟩ := good.positions (by rw [hs]; rfl) q o hq
      refine ⟨reached, fun y hy before => .inl ?_⟩
      rcases handled y hy before with old | ⟨ev', own⟩
      · exact old.mono x
      · cases hs.symm.trans own
        exact now
    · exact absurd (stage.symm.trans hs') nofun
    · cases stage.symm.trans hs'
      refine ⟨le_logEnd mem, fun y hy before => ?_⟩
      rcases upTo y hy (by omega) with old | rfl
      · exact old.mono x
      · exact now
  · cases eq

/-- A record appended at the end of a log. -/
theorem Confirmed.append {s : Group codec} (h : Confirmed s) (p : Nat) (value : codec.Payload)
    (gap : Nat) :
    Confirmed { s with
      logs := Function.update s.logs p (s.logs p ++ [⟨logEnd (s.logs p) + gap, value⟩]) } := by
  have x : Extends s { s with
      logs := Function.update s.logs p (s.logs p ++ [⟨logEnd (s.logs p) + gap, value⟩]) } := by
    refine ⟨fun q => ?_, fun _ hc => hc⟩
    by_cases same : q = p
    · subst same
      refine ⟨_, Function.update_self .., fun r hr => ?_⟩
      rw [List.mem_singleton.mp hr]
      exact Nat.le_add_right _ _
    · exact ⟨[], by rw [List.append_nil]; exact Function.update_of_ne same .., nofun⟩
  refine h.of_extends x (fun q => ?_) (fun _ => .inl rfl) (fun _ hc => .inl hc) fun _ hm => .inl hm
  show (Function.update s.logs p _ q).Pairwise _
  by_cases same : q = p
  · subst same
    rw [Function.update_self]
    refine List.pairwise_append.mpr ⟨h.sorted q, List.pairwise_singleton _ _, fun a ha b hb => ?_⟩
    have before := le_logEnd ha
    rw [List.mem_singleton.mp hb]
    show a.offset < logEnd (s.logs q) + gap
    omega
  · rw [Function.update_of_ne same]
    exact h.sorted q

/-- A commit sets an offset that everything before is handled. -/
theorem Confirmed.setOffset {s : Group codec} (h : Confirmed s) {p offset : Nat}
    (passed : Passed s p offset) (late : List (Nat × Nat)) (kept : ∀ c ∈ late, c ∈ s.late) :
    Confirmed { s with committed := Function.update s.committed p offset, late := late } := by
  have x : Extends s { s with committed := Function.update s.committed p offset, late := late } :=
    .of_same rfl fun _ hc => hc
  refine h.of_extends x h.sorted (fun q => ?_) (fun c hc => .inl (kept c hc)) fun _ hm => .inl hm
  by_cases same : q = p
  · subst same
    right
    show Passed _ q (Function.update s.committed q offset q)
    rw [Function.update_self]
    exact passed.mono x
  · left
    exact Function.update_of_ne same ..

/-- Cancellations, crashes and assignments, one member at a time. -/
theorem Confirmed.modify {s : Group codec} (h : Confirmed s) (i : Nat)
    {f : Member codec.Payload → Member codec.Payload} (good : ∀ m, m.Good s → (f m).Good s) :
    Confirmed { s with members := s.members.modify i f } := by
  have x : Extends s { s with members := s.members.modify i f } := .of_same rfl fun _ hc => hc
  refine h.of_extends x h.sorted (fun _ => .inl rfl) (fun _ hc => .inl hc) fun m hm => .inr ?_
  obtain ⟨j, hj⟩ := List.mem_iff_getElem?.mp hm
  rw [List.getElem?_modify] at hj
  obtain ⟨old, hold, eq⟩ := Option.map_eq_some_iff.mp hj
  have oldGood := h.members old (List.mem_of_getElem? hold)
  split at eq
  · exact eq ▸ (good old oldGood).mono x
  · exact eq ▸ oldGood.mono x

/-- An assignment begins at the group's offset. -/
theorem Member.Good.assign {s : Group codec} (h : Confirmed s) {m : Member codec.Payload}
    (good : m.Good s) (p : Nat) (owned : Bool) :
    Member.Good s ⟨m.reader, Function.update m.positions p
      (if owned then some (s.committed p) else none)⟩ := by
  refine ⟨fun live q o hq => ?_, good.handling, good.committing⟩
  change Function.update m.positions p _ q = some o at hq
  by_cases same : q = p
  · subst same
    rw [Function.update_self] at hq
    cases owned with
    | false => cases hq
    | true =>
      cases hq
      obtain ⟨reached, handled⟩ := h.committed q
      exact ⟨reached, fun r hr before => .inl (handled r hr before)⟩
  · rw [Function.update_of_ne same] at hq
    exact good.positions live q o hq

theorem confirmed_step {s t : Group codec} (h : Confirmed s) {mv : Move codec.Payload}
    (hstep : s.next mv = some t) : Confirmed t := by
  cases mv with
  | append p value gap =>
    cases hstep
    exact h.append p value gap
  | start =>
    cases hstep
    have x : Extends s { s with members := s.members ++ [⟨.start, fun _ => none⟩] } :=
      .of_same rfl fun _ hc => hc
    refine h.of_extends x h.sorted (fun _ => .inl rfl) (fun _ hc => .inl hc) fun m hm => ?_
    rcases List.mem_append.mp hm with old | new
    · exact .inl old
    · rw [List.mem_singleton.mp new]
      exact .inr (.idle rfl)
  | cancel i =>
    cases hstep
    exact h.modify i fun m good => ⟨good.positions, good.handling, good.committing⟩
  | crash i =>
    cases hstep
    exact h.modify i fun m _ => .idle rfl
  | assign i p owned =>
    cases hstep
    exact h.modify i fun m good => good.assign h p owned
  | check i => exact h.plain hstep nofun nofun nofun
  | fetchFail i => exact h.plain hstep nofun nofun nofun
  | sleep i => exact h.plain hstep nofun nofun nofun
  | close i source => exact h.plain hstep nofun nofun nofun
  | wait i => exact h.plain hstep nofun nofun nofun
  | connect i ok =>
    change s.resume i (.connected ok) (fun _ _ => none) = some t at hstep
    obtain ⟨m, w', hm, resumed, rfl⟩ := resume_some hstep
    refine h.member i ⟨fun _ p q hq => absurd hq nofun, fun p r ev hs => ?_, fun p r hs => ?_⟩
    all_goals
      change w'.stage = _ at hs
      rcases resume_cases resumed with idle | ⟨_, stage⟩ | ⟨_, _, _, _, eq, _⟩ | ⟨_, eq | eq⟩ |
        ⟨_, _, _, _, eq, _⟩ | ⟨_, _, _, eq, _⟩
      · rw [hs] at idle
        cases idle
      · exact absurd (stage.symm.trans hs) nofun
      all_goals cases eq
  | fetch i p =>
    obtain ⟨m, hm, rest⟩ := Option.bind_eq_some_iff.mp hstep
    obtain ⟨position, hq, rest⟩ := Option.bind_eq_some_iff.mp rest
    obtain ⟨r, hr, hresume⟩ := Option.bind_eq_some_iff.mp rest
    exact h.fetch hm hq hr hresume
  | handle i ok =>
    obtain ⟨m, hm, rest⟩ := Option.bind_eq_some_iff.mp hstep
    split at rest
    · next p r ev hs => exact h.handle hm hs rest
    · cases rest
  | commit i ok now =>
    obtain ⟨m, hm, rest⟩ := Option.bind_eq_some_iff.mp hstep
    split at rest
    · next p r hs =>
      have passed := (h.members m (List.mem_of_getElem? hm)).committing p r hs
      refine Confirmed.plain ?_ rest nofun nofun nofun
      cases now with
      | true => exact h.setOffset passed s.late fun _ hc => hc
      | false =>
        have x : Extends s { s with late := s.late ++ [(p, r.offset + 1)] } :=
          .of_same rfl fun _ hc => hc
        refine h.of_extends x h.sorted (fun _ => .inl rfl) (fun c hc => ?_) fun _ hm => .inl hm
        rcases List.mem_append.mp hc with old | new
        · exact .inl old
        · rw [List.mem_singleton.mp new]
          exact .inr (passed.mono x)
    · cases rest
  | land k =>
    obtain ⟨c, hc, eq⟩ := Option.bind_eq_some_iff.mp hstep
    cases eq
    exact h.setOffset (h.late c (List.mem_of_getElem? hc)) _ fun _ hc => List.mem_of_mem_eraseIdx hc

/-- **The invariant of the group holds in every reachable state.** -/
theorem confirmed {s : Group codec} (h : (group codec).Reachable s) : Confirmed s := by
  refine h.invariant (I := Confirmed) (fun s₀ fresh => ?_) fun _ _ _ _ ih hstep =>
    confirmed_step ih hstep
  refine ⟨fresh.sorted, fun p => ?_, fun c hc => ?_, fun m hm => ?_⟩
  · rw [fresh.committed p]
    exact ⟨Nat.zero_le _, fun r _ before => absurd before (Nat.not_lt_zero _)⟩
  · rw [fresh.late] at hc
    cases hc
  · rw [fresh.members] at hm
    cases hm

/-- **No record is skipped.** In every state the group reaches, over any partitions and logs, under
any failures and restarts: a record whose offset is below its partition's committed offset decodes,
and `handle` returned `nil` for its event. -/
theorem consume_never_skips {s : Group codec} (reach : (group codec).Reachable s) (p : Nat) :
    ∀ r ∈ s.logs p, r.offset < s.committed p →
      ∃ ev, codec.unmarshal r.value = some ev ∧ (p, r.offset, ev) ∈ s.handled :=
  ((confirmed reach).committed p).2

/-! ## A run -/

/-- Two records of partition 3 are handled: the first commit fails, though the broker takes it
later; the second session begins before that. -/
def restarted : List (Move MessageCreated) :=
  let ev (id : Nat) : MessageCreated := ⟨id, "text", "", 0, "otus-app"⟩
  [.append 3 (ev 1) 10, .append 3 (ev 2) 0, .start, .check 0, .connect 0 true, .assign 0 3 true,
    .fetch 0 3, .handle 0 true, .commit 0 false false, .close 0 0, .wait 0, .check 0,
    .connect 0 true, .assign 0 3 true, .land 0, .fetch 0 3, .handle 0 true, .commit 0 true true,
    .fetch 0 3, .handle 0 true, .commit 0 true true]

def newGroup : Group plainCodec := ⟨fun _ => [], fun _ => 0, [], [], []⟩

theorem consume_never_skips_restarted :
    ∃ s, (group plainCodec).Reachable s ∧ s.committed 3 = 12 ∧ s.handled.length = 3 ∧
      (s.logs 3).length = 2 ∧
      ∀ r ∈ s.logs 3, r.offset < s.committed 3 → ∃ ev, (3, r.offset, ev) ∈ s.handled := by
  have replayed : ∃ s, System.replay Group.next newGroup restarted = some s ∧ s.committed 3 = 12 ∧
      s.handled.length = 3 ∧ (s.logs 3).length = 2 := ⟨_, rfl, rfl, rfl, rfl⟩
  obtain ⟨s, hs, committed, handled, log⟩ := replayed
  have fresh : Fresh newGroup := ⟨fun _ => .nil, fun _ => rfl, rfl, rfl, rfl⟩
  have reach : (group plainCodec).Reachable s := ⟨newGroup, fresh, System.Runs.of_replay hs⟩
  refine ⟨s, reach, committed, handled, log, fun r hr before => ?_⟩
  obtain ⟨ev, _, mem⟩ := consume_never_skips reach 3 r hr before
  exact ⟨ev, mem⟩

end OtusApp.Consumer
