import OtusApp.Gateway.Batch

/-!
# What a batch reports

Whatever the interleaving of the gateway, the service and the network between them, the texts stored
are a beginning of those sent, without a blank one, and up to the one whose `Create` failed. The
gateway answers 201 exactly where a summary has reached it, and the service sends one only when it
has received and stored all of them (`batch_truthful`).
-/

namespace OtusApp.Gateway

open Go Messaging Grpcserver Transition ClientStream

variable {cfg : BatchConfig} {texts : List String} {s t : Session}

/-- The texts that were stored. -/
def Session.stored (s : Session) : List String := s.committed.map Prod.snd

/-- The identifiers of the messages that were stored. -/
def Session.ids (s : Session) : List Nat := s.committed.map Prod.fst

/-- What the gateway still has to send. -/
def BatchClient.unsent (texts : List String) : BatchClient → List String
  | .opening rest => rest
  | .sending rest => rest
  | .waiting => []
  | .answered _ => texts

/-- The service has begun, and has not returned yet. -/
def BatchService.Running : BatchService → Prop
  | .idle => False
  | .returned _ => False
  | _ => True

/-- What the service has done by the time it is somewhere in its code. -/
def Session.Reports (texts : List String) (s : Session) : BatchService → Prop
  | .idle => s.committed = [] ∧ s.received = [] ∧ s.failed = []
  | .accepting => s.committed = [] ∧ s.received = [] ∧ s.failed = []
  | .receiving ids => s.ids = ids ∧ s.stored = s.received ∧ s.failed = []
  | .creating ids text =>
    s.ids = ids ∧ s.stored ++ [text] = s.received ∧ s.failed = [] ∧ ¬Blank text
  | .returned (.ok summary) =>
    summary = ⟨wrap32 s.ids.length, s.ids⟩ ∧ s.stored = texts ∧ s.failed = []
  | .returned (.error _) =>
    s.stored <+: s.received ∧ ∀ text ∈ s.failed, s.stored ++ [text] = s.received

/-- What holds of a batch at any time. -/
structure Truthful (cfg : BatchConfig) (texts : List String) (s : Session) : Prop where
  carries : s.stream.Carries texts s.received (s.client.unsent texts)
  reports : s.Reports texts s.service
  plain : ∀ text ∈ s.stored, ¬Blank text
  opening : ∀ rest, s.client = .opening rest → rest = texts ∧ texts ≠ [] ∧ s.service = .idle
  nonempty : s.service ≠ .idle → texts ≠ []
  ended : ∀ summary, s.stream.ended = some (.ok summary) → s.service = .returned (.ok summary)
  answered : ∀ r, s.client = .answered r →
    (∃ e, s.stream.ended = some e ∧ r = writeSummary cfg e) ∨ (r.status ≠ 201 ∧ s.service = .idle)

theorem httpStatus_ne (status : Status) : httpStatus status ≠ 201 := by
  cases status <;> simp [httpStatus]

/-! ## The gateway -/

theorem requested_truthful (cfg : BatchConfig) (body : Bytes) :
    Truthful cfg ((cfg.texts body).getD []) (requested cfg body) := by
  have start : ∀ client : BatchClient,
      client.unsent ((cfg.texts body).getD []) = (cfg.texts body).getD [] →
        (∀ rest, client = .opening rest → rest = (cfg.texts body).getD [] ∧
          (cfg.texts body).getD [] ≠ []) →
        (∀ r, client = .answered r → r.status ≠ 201) →
        Truthful cfg ((cfg.texts body).getD []) ⟨client, .idle, .empty, [], [], []⟩ := by
    intro client unsent opening answered
    constructor
    · rw [unsent]
      exact Stream.empty_carries _
    · exact ⟨rfl, rfl, rfl⟩
    · exact fun _ mem => absurd mem List.not_mem_nil
    · exact fun rest same => ⟨(opening rest same).1, (opening rest same).2, rfl⟩
    · exact fun busy => absurd rfl busy
    · exact fun _ ended => absurd ended.symm (Option.some_ne_none _)
    · exact fun r same => .inr ⟨answered r same, rfl⟩
  have refused : ∀ text, Truthful cfg ((cfg.texts body).getD [])
      ⟨.answered (Handlers.writeError cfg.json 400 text), .idle, .empty, [], [], []⟩ := by
    intro text
    refine start _ rfl (fun _ same => BatchClient.noConfusion same) fun r same => ?_
    cases same
    exact (by decide : (400 : Nat) ≠ 201)
  unfold requested grpcBatch
  split
  · exact refused _
  · next texts decoded =>
    split
    · exact refused _
    · next nonempty =>
      rw [decoded] at start ⊢
      refine start (.opening texts) rfl (fun rest same => ?_) (fun r same => ?_)
      · cases same
        exact ⟨rfl, fun none => nonempty (List.length_eq_zero_iff.mpr none)⟩
      · cases same

theorem openStream_truthful {err : Option Status} (h : Truthful cfg texts s)
    (step : openStream cfg s err = some t) :
    Truthful cfg texts t := by
  have carries := h.carries
  have reports := h.reports
  unfold openStream at step
  split at step
  · next rest status stage =>
    cases step
    obtain ⟨rfl, _, idle⟩ := h.opening rest stage
    rw [stage] at carries
    refine { h with
      carries := carries
      opening := fun _ same => BatchClient.noConfusion same
      answered := ?_ }
    intro r same
    cases same
    exact .inr ⟨httpStatus_ne status, idle⟩
  · next rest stage =>
    cases step
    obtain ⟨rfl, ne, idle⟩ := h.opening rest stage
    rw [stage] at carries
    rw [idle] at reports
    refine { h with
      carries := carries
      reports := reports
      opening := ?_
      nonempty := fun _ => ne
      ended := ?_
      answered := ?_ }
    · exact fun _ same => BatchClient.noConfusion same
    · intro summary ended
      rw [h.ended summary ended] at idle
      cases idle
    · exact fun _ same => BatchClient.noConfusion same
  · cases step

theorem send_truthful {ok : Bool} (h : Truthful cfg texts s) (step : send s ok = some t) :
    Truthful cfg texts t := by
  have carries := h.carries
  unfold send at step
  split at step
  · next text rest stage =>
    rw [stage] at carries
    split at step
    · cases step
      refine { h with carries := carries.send, opening := ?_, ended := ?_, answered := ?_ }
      · exact fun _ same => BatchClient.noConfusion same
      · intro summary ended
        rw [Stream.ended_send] at ended
        exact h.ended summary ended
      · exact fun _ same => BatchClient.noConfusion same
    · obtain ⟨isOver, same⟩ := Option.ite_none_right_eq_some.mp step
      cases same
      obtain ⟨r, ended⟩ := Option.isSome_iff_exists.mp isOver
      refine { h with carries := carries.abandon ended [], opening := ?_, answered := ?_ }
      · exact fun _ same => BatchClient.noConfusion same
      · exact fun _ same => BatchClient.noConfusion same
  · cases step

theorem closeAndRecv_truthful (h : Truthful cfg texts s) (step : closeAndRecv s = some t) :
    Truthful cfg texts t := by
  have carries := h.carries
  unfold closeAndRecv at step
  split at step
  · next stage =>
    cases step
    rw [stage] at carries
    refine { h with carries := carries.close, opening := ?_, ended := ?_, answered := ?_ }
    · exact fun _ same => BatchClient.noConfusion same
    · intro summary ended
      rw [Stream.ended_close] at ended
      exact h.ended summary ended
    · exact fun _ same => BatchClient.noConfusion same
  · cases step

theorem answer_truthful (h : Truthful cfg texts s) (step : answer cfg s = some t) :
    Truthful cfg texts t := by
  unfold answer at step
  split at step
  · next r _ ended =>
    cases step
    refine { h with carries := h.carries.abandon ended texts, opening := ?_, answered := ?_ }
    · exact fun _ same => BatchClient.noConfusion same
    · intro response same
      cases same
      exact .inl ⟨r, ended, rfl⟩
  · cases step

/-! ## The service -/

/-- A step of a service that has not returned yet. -/
theorem Truthful.serve (h : Truthful cfg texts s) {stream : Stream String Summary Status}
    {received : List String} {service : BatchService} {committed : List (Nat × String)}
    {failed : List String} (running : s.service.Running) (same : stream.ended = s.stream.ended)
    (carries : stream.Carries texts received (s.client.unsent texts))
    (reports : Session.Reports texts ⟨s.client, service, stream, received, committed,
      failed⟩ service)
    (plain : ∀ text ∈ committed.map Prod.snd, ¬Blank text) :
    Truthful cfg texts ⟨s.client, service, stream, received, committed, failed⟩ := by
  have busy : s.service ≠ .idle := fun idle => by rw [idle] at running; exact running
  constructor
  · exact carries
  · exact reports
  · exact plain
  · exact fun rest stage => absurd (h.opening rest stage).2.2 busy
  · exact fun _ => h.nonempty busy
  · intro summary ended
    rw [same] at ended
    rw [h.ended summary ended] at running
    exact running.elim
  · intro r stage
    rcases h.answered r stage with ⟨e, ended, wrote⟩ | ⟨_, idle⟩
    · exact .inl ⟨e, same.trans ended, wrote⟩
    · exact absurd idle busy

theorem accept_truthful {valid : Bool} {md : Header} (h : Truthful cfg texts s)
    (step : accept cfg valid md s = some t) : Truthful cfg texts t := by
  have reports := h.reports
  unfold accept at step
  split at step
  · next stage =>
    rw [stage] at reports
    obtain ⟨committed, received, failed⟩ := reports
    have running : s.service.Running := by rw [stage]; trivial
    split at step
    · cases step
      refine h.serve running rfl h.carries ⟨?_, ?_⟩ h.plain
      · rw [Session.stored, committed]
        exact List.nil_prefix
      · rw [failed]
        exact fun _ mem => absurd mem List.not_mem_nil
    · cases step
      refine h.serve running rfl h.carries ⟨?_, ?_, failed⟩ h.plain
      · rw [Session.ids, committed]
        rfl
      · rw [Session.stored, committed, received]
        rfl
  · cases step

theorem recv_truthful (h : Truthful cfg texts s) (step : recv s = some t) :
    Truthful cfg texts t := by
  have reports := h.reports
  unfold recv at step
  split at step
  · next ids stage =>
    rw [stage] at reports
    obtain ⟨same, stored, failed⟩ := reports
    have running : s.service.Running := by rw [stage]; trivial
    split at step
    · cases step
    · next stream got =>
      cases step
      obtain ⟨everything, rfl⟩ := h.carries.eof got
      refine h.serve running rfl h.carries ⟨?_, ?_, failed⟩ h.plain
      · rw [← same]
        rfl
      · exact stored.trans everything
    · next text stream got =>
      cases step
      obtain ⟨carries, ended⟩ := h.carries.recv got
      refine h.serve running ended carries ?_ h.plain
      split
      · refine ⟨?_, ?_⟩
        · exact stored ▸ List.prefix_append _ _
        · rw [failed]
          exact fun _ mem => absurd mem List.not_mem_nil
      · next plain => exact ⟨same, by rw [← stored]; rfl, failed, plain⟩
  · cases step

theorem recvError_truthful {status : Status} (h : Truthful cfg texts s)
    (step : recvError s status = some t) :
    Truthful cfg texts t := by
  have reports := h.reports
  unfold recvError at step
  split at step
  · next ids stage =>
    rw [stage] at reports
    obtain ⟨_, stored, failed⟩ := reports
    have running : s.service.Running := by rw [stage]; trivial
    cases step
    refine h.serve running rfl h.carries ⟨?_, ?_⟩ h.plain
    · exact stored ▸ List.prefix_refl _
    · rw [failed]
      exact fun _ mem => absurd mem List.not_mem_nil
  · cases step

theorem create_truthful {id : Option Nat} (h : Truthful cfg texts s) (step : create s id = some t) :
    Truthful cfg texts t := by
  have reports := h.reports
  unfold create at step
  split at step
  · next ids text stage =>
    rw [stage] at reports
    obtain ⟨same, received, failed, plain⟩ := reports
    have running : s.service.Running := by rw [stage]; trivial
    split at step
    · next id _ =>
      cases step
      refine h.serve running rfl h.carries ⟨?_, ?_, failed⟩ ?_
      · rw [Session.ids, List.map_append, ← same]
        rfl
      · rw [← received, Session.stored, List.map_append]
        rfl
      · intro stored mem
        rw [List.map_append] at mem
        rcases List.mem_append.mp mem with old | new
        · exact h.plain stored old
        · cases List.mem_singleton.mp new
          exact plain
    · cases step
      refine h.serve running rfl h.carries ⟨?_, ?_⟩ h.plain
      · rw [← received]
        exact List.prefix_append _ _
      · rw [failed]
        intro other mem
        cases List.mem_singleton.mp mem
        exact received
  · cases step

/-! ## The network -/

theorem deliver_truthful (h : Truthful cfg texts s) (step : deliver s = some t) :
    Truthful cfg texts t := by
  unfold deliver at step
  split at step
  · next r stage =>
    obtain ⟨stream, ends, rfl⟩ := Option.map_eq_some_iff.mp step
    obtain ⟨lasts, rfl⟩ := Stream.settled ends
    refine { h with carries := h.carries.settle r, ended := ?_, answered := ?_ }
    · intro summary ended
      cases ended
      exact stage
    · intro response answered
      rcases h.answered response answered with ⟨e, ended, _⟩ | never
      · rw [lasts] at ended
        cases ended
      · exact .inr never
  · cases step

theorem break_truthful {status : Status} (h : Truthful cfg texts s)
    (step : break_ s status = some t) :
    Truthful cfg texts t := by
  obtain ⟨stream, ends, rfl⟩ := Option.map_eq_some_iff.mp step
  obtain ⟨lasts, rfl⟩ := Stream.settled ends
  refine { h with carries := h.carries.settle _, ended := ?_, answered := ?_ }
  · intro summary ended
    cases ended
  · intro response answered
    rcases h.answered response answered with ⟨e, ended, _⟩ | never
    · rw [lasts] at ended
      cases ended
    · exact .inr never

/-! ## Every run -/

/-- What is reported is what was done, in every run. -/
theorem truthful {req : Request} {valid : Bool} (h : (batch cfg req valid).Reachable s) :
    Truthful cfg ((cfg.texts req.body).getD []) s := by
  refine h.invariant ?_ ?_
  · rintro s rfl
    exact requested_truthful cfg req.body
  · intro s move t _ ih step
    cases move with
    | open_ err => exact openStream_truthful ih step
    | send ok => exact send_truthful ih step
    | closeAndRecv => exact closeAndRecv_truthful ih step
    | answer => exact answer_truthful ih step
    | accept => exact accept_truthful ih step
    | recv => exact recv_truthful ih step
    | recvError status => exact recvError_truthful ih step
    | create id => exact create_truthful ih step
    | deliver => exact deliver_truthful ih step
    | break_ status => exact break_truthful ih step

/-- What was stored is a beginning of the texts, and a `Create` that failed was that of the next
one. -/
theorem Truthful.beginning (h : Truthful cfg texts s) :
    s.stored <+: texts ∧ ∀ text ∈ s.failed, s.stored ++ [text] <+: texts := by
  have reports := h.reports
  have received := h.carries.isPrefix
  have nothing : s.failed = [] → ∀ text ∈ s.failed, s.stored ++ [text] <+: texts := by
    intro none text mem
    rw [none] at mem
    cases mem
  cases stage : s.service with
  | idle | accepting =>
    rw [stage] at reports
    obtain ⟨none, _, failed⟩ := reports
    refine ⟨?_, nothing failed⟩
    rw [Session.stored, none]
    exact List.nil_prefix
  | receiving ids =>
    rw [stage] at reports
    obtain ⟨_, same, failed⟩ := reports
    exact ⟨same ▸ received, nothing failed⟩
  | creating ids text =>
    rw [stage] at reports
    obtain ⟨_, same, failed, _⟩ := reports
    exact ⟨(List.prefix_append _ _).trans (same ▸ received), nothing failed⟩
  | returned r =>
    rw [stage] at reports
    cases r with
    | ok summary =>
      obtain ⟨_, same, failed⟩ := reports
      exact ⟨same ▸ List.prefix_refl _, nothing failed⟩
    | error status =>
      obtain ⟨stored, failed⟩ := reports
      exact ⟨stored.trans received, fun text mem => failed text mem ▸ received⟩

/-- The gateway answers 201 where a summary has reached it, and then everything is stored. -/
theorem Truthful.created (h : Truthful cfg texts s) {r : Response}
    (stage : s.client = .answered r) :
    r.status = 201 ↔ ∃ summary, s.stream.ended = some (.ok summary) ∧
    r = writeSummary cfg (.ok summary) := by
  constructor
  · intro created
    rcases h.answered r stage with ⟨e, ended, rfl⟩ | ⟨other, _⟩
    · cases e with
      | ok summary => exact ⟨summary, ended, rfl⟩
      | error status => exact absurd created (httpStatus_ne status)
    · exact absurd created other
  · rintro ⟨summary, _, rfl⟩
    rfl

theorem Truthful.summary (h : Truthful cfg texts s) {summary : Summary}
    (ended : s.stream.ended = some (.ok summary)) :
    texts ≠ [] ∧ s.stored = texts ∧ summary = ⟨wrap32 s.ids.length, s.ids⟩ := by
  have stage := h.ended summary ended
  have reports := h.reports
  rw [stage] at reports
  obtain ⟨same, stored, _⟩ := reports
  refine ⟨h.nonempty ?_, stored, same⟩
  rw [stage]
  exact fun idle => BatchService.noConfusion idle

/-- **A batch.** In every run, the texts stored are a beginning of those sent, in their order,
without a blank one, and up to the one whose `Create` failed. The gateway answers 201 exactly where
there were texts, all of them are stored and a summary has reached it; the answer then has their
number and their identifiers in the order of the texts. -/
theorem batch_truthful {req : Request} {valid : Bool} (h : (batch cfg req valid).Reachable s)
    (decoded : (cfg.texts req.body).getD [] = texts) :
    s.stored <+: texts ∧ (∀ text ∈ s.stored, ¬Blank text) ∧
    (∀ text ∈ s.failed, s.stored ++ [text] <+: texts) ∧
    ∀ r, s.client = .answered r →
      (r.status = 201 ↔ texts ≠ [] ∧ s.stored = texts ∧ ∃ summary,
        s.stream.ended = some (.ok summary)) ∧
      (r.status = 201 → texts.length < 2 ^ 31 →
        r = Handlers.writeJSON 201 (some (cfg.summary ⟨s.committed.length, s.ids⟩))) := by
  subst decoded
  have holds := truthful h
  refine ⟨holds.beginning.1, holds.plain, holds.beginning.2, fun r stage => ⟨⟨?_, ?_⟩, ?_⟩⟩
  · intro created
    obtain ⟨summary, ended, _⟩ := (holds.created stage).mp created
    obtain ⟨ne, stored, _⟩ := holds.summary ended
    exact ⟨ne, stored, summary, ended⟩
  · rintro ⟨_, _, summary, ended⟩
    rcases holds.answered r stage with ⟨e, other, rfl⟩ | ⟨_, idle⟩
    · cases ended.symm.trans other
      rfl
    · rw [holds.ended summary ended] at idle
      cases idle
  · intro created few
    obtain ⟨summary, ended, rfl⟩ := (holds.created stage).mp created
    obtain ⟨_, stored, rfl⟩ := holds.summary ended
    have number : s.ids.length = s.committed.length := List.length_map _
    have count : s.committed.length = ((cfg.texts req.body).getD []).length := by
      rw [← stored]
      exact (List.length_map _).symm
    have fits : wrap32 s.ids.length = s.committed.length := by
      rw [number]
      exact wrap32_of_fits (by omega) (by omega)
    rw [fits]
    rfl

/-- A text for each byte of a body, and a summary of as many bytes. -/
def plainBatch : BatchConfig where
  json := Handlers.plainJson
  texts body := some (body.map fun b => String.ofList [Char.ofNat b.toNat])
  summary s := UInt8.ofNat s.created.toNat :: s.ids.map UInt8.ofNat
  authEnabled := false

/-- Two texts. -/
def twoTexts : Request :=
  ⟨"POST", "/gw/grpc/messages/batch", Header.empty, [97, 98], "10.0.0.1:5000"⟩

/-- The service stores the first text before the second one is sent. -/
def bothStored : List BatchMove :=
  [.open_ none, .accept, .send true, .recv, .create (some 7), .send true, .closeAndRecv, .recv,
    .create (some 9), .recv,
    .deliver, .answer]

theorem batch_truthful_twoTexts :
    ∃ s r, (batch plainBatch twoTexts true).Reachable s ∧ s.client = .answered r ∧
    r.status = 201 ∧ s.stored = ["a", "b"] ∧ r = Handlers.writeJSON 201 (some [2, 7, 9]) := by
  have replayed : ∃ s, System.replay (batchStep plainBatch true (withAuth twoTexts.header))
      (requested plainBatch twoTexts.body) bothStored = some s ∧
      s.committed = [(7, "a"), (9, "b")] ∧
      ∃ r, s.client = .answered r ∧ s.stream.ended = some (.ok ⟨2, [7, 9]⟩) :=
        ⟨_, rfl, rfl, _, rfl, rfl⟩
  obtain ⟨s, hs, committed, r, answered, ended⟩ := replayed
  have reached : (batch plainBatch twoTexts true).Reachable s := ⟨_, rfl, System.Runs.of_replay hs⟩
  have decoded : (plainBatch.texts twoTexts.body).getD [] = ["a", "b"] := rfl
  have stored : s.stored = ["a", "b"] := by
    rw [Session.stored, committed]
    rfl
  obtain ⟨created, answer⟩ := (batch_truthful reached decoded).2.2.2 r answered
  have status := created.mpr ⟨by decide, stored, _, ended⟩
  refine ⟨s, r, reached, answered, status, stored, ?_⟩
  rw [answer status (by decide), Session.ids, committed]
  rfl

/-! ## The code of the service -/

/-- What the store answers the calls of a `Create`, and the counter. -/
def storeAnswer (result : Except Err Message) : (e : Messages.Effect) → Option e.Result
  | .submit _ _ => some (0 : Nat)
  | .await _ => some result
  | .count => some ()
  | _ => none

/-- The answers to the calls of a `Create` that stores a message, and of the counter after it. -/
def storing (c : Nat × String) : List (Except Err Message) :=
  List.replicate 3 (.ok ⟨c.1, c.2, "", true, 0⟩)

theorem batchCreate_stored {text : String} (plain : ¬Blank text) (ending : Ending) (ids : List Nat)
    (id : Nat) (rest : List String) (ws : List (Except Err Message)) :
    (batchCreate ending ids (text :: rest)).answered storeAnswer (storing (id, text) ++ ws) =
      (batchCreate ending (ids ++ [id]) rest).answered storeAnswer ws := by
  rw [batchCreate, if_neg plain, Messages.create, validateText, if_neg plain]
  rfl

theorem batchCreate_failed {text : String} (plain : ¬Blank text) (ending : Ending) (ids : List Nat)
    (rest : List String) :
    (batchCreate ending ids (text :: rest)).answered storeAnswer
      (List.replicate 2 (.error .database)) =
      some (.error (.internal "не удалось сохранить сообщение")) := by
  rw [batchCreate, if_neg plain, Messages.create, validateText, if_neg plain]
  rfl

/-- What the service does is what `batchCreate` does of the texts received: `stage` is what is left
of it. -/
def Session.At (s : Session)
    (stage : Ending → List String → Messages.Handler (Except Status Summary)) : Prop :=
  ∀ ending rest ws, (batchCreate ending [] (s.received ++ rest)).answered storeAnswer
    (s.committed.flatMap storing ++ ws) =
    (stage ending rest).answered storeAnswer ws

/-- `batchCreate` returns this of the texts received, or the interceptor refuses the stream, or it
breaks. -/
def Session.Returns (refusal : Option Status) (s : Session) (r : Except Status Summary) : Prop :=
  (∃ status, refusal = some status ∧ r = .error status) ∨
  (∃ ending ws, (batchCreate ending [] s.received).answered storeAnswer ws = some r) ∨
  ∃ status ws, r = .error status ∧
  (batchCreate .broken [] s.received).answered storeAnswer ws = some (.error .broken)

/-- Where the service is in the code. -/
def Session.Executes (refusal : Option Status) (s : Session) : BatchService → Prop
  | .idle => True
  | .accepting => True
  | .receiving ids => s.At fun ending rest => batchCreate ending ids rest
  | .creating ids text => s.At fun ending rest => batchCreate ending ids (text :: rest)
  | .returned r => s.Returns refusal r

/-- Neither the gateway nor the network moves the service on. -/
theorem batchStep_service {valid : Bool} {md : Header} {move : BatchMove}
    (step : batchStep cfg valid md s move = some t) :
    (t.received = s.received ∧ t.committed = s.committed ∧
      (t.service = s.service ∨ t.service = .accepting)) ∨
    accept cfg valid md s = some t ∨ recv s = some t ∨ (∃ status, recvError s status = some t) ∨
    ∃ id, create s id = some t := by
  cases move with
  | open_ err =>
    left
    simp only [batchStep, openStream] at step
    split at step <;> cases step
    · exact ⟨rfl, rfl, .inl rfl⟩
    · exact ⟨rfl, rfl, .inr rfl⟩
  | send ok =>
    left
    simp only [batchStep, send] at step
    split at step
    · split at step
      · cases step
        exact ⟨rfl, rfl, .inl rfl⟩
      · cases (Option.ite_none_right_eq_some.mp step).2
        exact ⟨rfl, rfl, .inl rfl⟩
    · cases step
  | closeAndRecv =>
    left
    simp only [batchStep, closeAndRecv] at step
    split at step <;> cases step
    exact ⟨rfl, rfl, .inl rfl⟩
  | answer =>
    left
    simp only [batchStep, answer] at step
    split at step <;> cases step
    exact ⟨rfl, rfl, .inl rfl⟩
  | accept => exact .inr (.inl step)
  | recv => exact .inr (.inr (.inl step))
  | recvError status => exact .inr (.inr (.inr (.inl ⟨status, step⟩)))
  | create id => exact .inr (.inr (.inr (.inr ⟨id, step⟩)))
  | deliver =>
    left
    simp only [batchStep, deliver] at step
    split at step
    · obtain ⟨stream, _, rfl⟩ := Option.map_eq_some_iff.mp step
      exact ⟨rfl, rfl, .inl rfl⟩
    · cases step
  | break_ status =>
    left
    obtain ⟨stream, _, rfl⟩ := Option.map_eq_some_iff.mp step
    exact ⟨rfl, rfl, .inl rfl⟩

theorem recv_executes {refusal : Option Status} (h : s.Executes refusal s.service)
    (step : recv s = some t) :
    t.Executes refusal t.service := by
  unfold recv at step
  split at step
  · next ids stage =>
    rw [stage] at h
    split at step
    · cases step
    · cases step
      refine .inr (.inl ⟨.eof, s.committed.flatMap storing ++ [], ?_⟩)
      have ends := h .eof [] []
      rw [List.append_nil] at ends
      exact ends
    · next text stream got =>
      cases step
      have onward : ∀ ending rest ws,
          (batchCreate ending [] (s.received ++ [text] ++ rest)).answered storeAnswer
            (s.committed.flatMap storing ++ ws) = (batchCreate ending ids (text :: rest)).answered
              storeAnswer ws := by
        intro ending rest ws
        rw [List.append_assoc]
        exact h ending (text :: rest) ws
      simp only
      split
      · next blank =>
        refine .inr (.inl ⟨.eof, s.committed.flatMap storing ++ [], ?_⟩)
        have ends := onward .eof [] []
        rw [List.append_nil] at ends
        rw [ends, batchCreate, if_pos blank]
        rfl
      · exact onward
  · cases step

theorem recvError_executes {refusal : Option Status} {status : Status}
    (h : s.Executes refusal s.service) (step : recvError s status = some t) :
    t.Executes refusal t.service := by
  unfold recvError at step
  split at step
  · next ids stage =>
    rw [stage] at h
    cases step
    refine .inr (.inr ⟨status, s.committed.flatMap storing ++ [], rfl, ?_⟩)
    have ends := h .broken [] []
    rw [List.append_nil] at ends
    exact ends
  · cases step

theorem create_executes {refusal : Option Status} {id : Option Nat}
    (h : s.Executes refusal s.service)
    (plain : ∀ ids text, s.service = .creating ids text → ¬Blank text)
    (step : create s id = some t) :
    t.Executes refusal t.service := by
  unfold create at step
  split at step
  · next ids text stage =>
    rw [stage] at h
    split at step
    · next id _ =>
      cases step
      intro ending rest ws
      rw [List.flatMap_append, List.append_assoc]
      exact (h ending rest _).trans
        (batchCreate_stored (plain ids text stage) ending ids id rest ws)
    · cases step
      refine .inr
        (.inl ⟨.eof, s.committed.flatMap storing ++ List.replicate 2 (.error .database), ?_⟩)
      have ends := h .eof [] (List.replicate 2 (.error .database))
      rw [List.append_nil] at ends
      exact ends.trans (batchCreate_failed (plain ids text stage) .eof ids [])
  · cases step

/-- **The service** runs `batchCreate` over what it receives. -/
theorem service_executes {req : Request} {valid : Bool} (h : (batch cfg req valid).Reachable s) :
    s.Executes (checkAuth cfg.authEnabled valid (withAuth req.header)) s.service := by
  refine h.invariant (I := fun s =>
    s.Executes (checkAuth cfg.authEnabled valid (withAuth req.header)) s.service) ?_ ?_
  · rintro s rfl
    trivial
  · intro s move t reached ih step
    have reports := (truthful reached).reports
    rcases batchStep_service step
      with ⟨received, committed, service⟩ | accepted | received | ⟨status, failed⟩ | ⟨id, made⟩
    · rcases service with same | accepting
      · rw [same]
        cases stage : s.service with
        | idle | accepting => trivial
        | receiving ids | creating ids text | returned r =>
          rw [stage] at ih
          simpa only [Session.Executes, Session.At, Session.Returns, received, committed] using ih
      · rw [accepting]
        trivial
    · unfold accept at accepted
      split at accepted
      · next stage =>
        rw [stage] at reports
        obtain ⟨none, nothing, _⟩ := reports
        split at accepted <;> cases accepted
        · next status refused => exact .inl ⟨status, refused, rfl⟩
        · intro ending rest ws
          rw [nothing, none]
          rfl
      · cases accepted
    · exact recv_executes ih received
    · exact recvError_executes ih failed
    · refine create_executes ih (fun ids text stage => ?_) made
      rw [stage] at reports
      exact reports.2.2.2

end OtusApp.Gateway
