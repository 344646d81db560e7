import OtusApp.Gateway.Chat

/-!
# A chat echoes every note

However the steps of the gateway, the service and the network fall, an answer 200 has the echo of
every note, in their order (`chat_echoes`): a reply never belongs to another note, and there is no
answer with some of the replies. While nothing fails, one of the two can always go on, and the
answer is there after four steps a note (`chat_completes`).
-/

namespace OtusApp.Gateway.Chat

open Go Grpcserver Transition Duplex

variable {cfg : Config} {notes : List String} {s t : Session}

/-! ## What is on its way -/

/-- Whether the service is about to reply. -/
def Service.echoes : Service → Bool
  | .echoing _ => true
  | _ => false

/-- Nothing is on its way, and no reply is to come. -/
def Still (s : Session) : Prop := s.stream.up = [] ∧ s.stream.down = [] ∧ s.service.echoes = false

/-- The one note without a reply: it is on its way, or with the service; its reply is on its way; or
there will be none. -/
inductive Pending (s : Session) (done : List String) (note : String) : Prop
  | sent (up : s.stream.up = [note]) (down : s.stream.down = [])
      (service : s.service.echoes = false) (heard : s.heard = done)
  | heard (up : s.stream.up = []) (down : s.stream.down = []) (service : s.service = .echoing note)
      (heard : s.heard = done ++ [note])
  | replied (up : s.stream.up = []) (down : s.stream.down = [echo note])
      (service : s.service.echoes = false)
      (heard : s.heard = done ++ [note])
  | dropped (still : Still s)

/-- Where the two are, of all the notes. -/
def Stands (cfg : Config) (notes : List String) (s : Session) : Client → Prop
  | .opening ns => ns = notes ∧ notes ≠ [] ∧ s.service = .idle ∧ s.heard = [] ∧ Still s
  | .sending rest replies =>
    notes ≠ [] ∧ notes = s.heard ++ rest ∧ replies = s.heard.map echo ∧ Still s
  | .waiting rest replies =>
    ∃ done note, notes = done ++ note :: rest ∧ replies = done.map echo ∧ Pending s done note
  | .answered r => (∃ status text, r = Handlers.writeError cfg.json status text ∧ status ≠ 200) ∨
      (notes ≠ [] ∧ s.heard = notes ∧
        r = Handlers.writeJSON 200 (some (cfg.replies (notes.map echo))))

/-- What holds at any time: the service hears a beginning of the notes. -/
structure Echoes (cfg : Config) (notes : List String) (s : Session) : Prop where
  beginning : s.heard ++ s.stream.up <+: notes
  stands : Stands cfg notes s s.client

theorem httpStatus_ne_ok (status : Status) : httpStatus status ≠ 200 := by
  cases status <;> simp [httpStatus]

theorem requested_echoes (cfg : Config) (body : Bytes) :
    Echoes cfg ((cfg.notes body).getD []) (requested cfg body) := by
  constructor
  · simp [requested, Stream.empty]
  · simp only [requested, grpcChat]
    split
    · exact .inl ⟨400, _, rfl, by decide⟩
    · next notes read =>
      split
      · exact .inl ⟨400, _, rfl, by decide⟩
      · next nonempty =>
        refine ⟨by rw [read]; rfl, ?_, rfl, rfl, rfl, rfl, rfl⟩
        rw [read]
        exact fun none => nonempty (by simp [show notes = [] from none])

/-! ## The gateway -/

theorem open_echoes {err : Option Status} (h : Echoes cfg notes s)
    (step : open_ cfg s err = some t) : Echoes cfg notes t := by
  have stands := h.stands
  unfold open_ at step
  split at step
  · next status stage =>
    cases step
    exact ⟨h.beginning, .inl ⟨_, _, rfl, httpStatus_ne_ok status⟩⟩
  · next ns stage =>
    cases step
    rw [stage] at stands
    obtain ⟨rfl, nonempty, _, nothing, up, down, _⟩ := stands
    refine ⟨h.beginning, nonempty, ?_, ?_, up, down, rfl⟩
    · simp [nothing]
    · simp [nothing]
  · cases step

/-- A stream takes a note, or loses it. -/
theorem send_cases (stream : Stream String String Status) (note : String) :
    stream.send note = stream ∨ stream.send note = { stream with up := stream.up ++ [note] } := by
  unfold Stream.send
  split
  · exact .inl rfl
  · exact .inr rfl

theorem send_echoes {ok : Bool} (h : Echoes cfg notes s) (step : send cfg s ok = some t) :
    Echoes cfg notes t := by
  have stands := h.stands
  unfold send at step
  split at step
  · next note rest replies stage =>
    rw [stage] at stands
    obtain ⟨_, split, rfl, up, down, service⟩ := stands
    split at step
    · cases step
      rcases send_cases s.stream note with lost | sent
      · rw [lost]
        exact ⟨h.beginning, s.heard, note, split, rfl, .dropped ⟨up, down, service⟩⟩
      · rw [sent]
        refine ⟨?_, s.heard, note, split, rfl, .sent ?_ down service rfl⟩
        · simp [up, split]
        · simp [up]
    · obtain ⟨_, same⟩ := Option.ite_none_right_eq_some.mp step
      cases same
      exact ⟨h.beginning, .inl ⟨502, "EOF", rfl, by decide⟩⟩
  · cases step

theorem recv_echoes {early : Bool} (h : Echoes cfg notes s) (step : recv cfg s early = some t) :
    Echoes cfg notes t := by
  have stands := h.stands
  unfold recv at step
  split at step
  · next rest replies stage =>
    rw [stage] at stands
    obtain ⟨done, note, split, rfl, pending⟩ := stands
    obtain ⟨⟨got, stream⟩, received, rfl⟩ := Option.map_eq_some_iff.mp step
    cases Stream.receives received with
    | eof _ _ => exact ⟨h.beginning, .inl ⟨502, "EOF", rfl, by decide⟩⟩
    | error status _ => exact ⟨h.beginning, .inl ⟨_, _, rfl, httpStatus_ne_ok status⟩⟩
    | message reply more next =>
      -- a message can only be the reply to the note that is without one
      cases pending with
      | sent _ down => simp [down] at next
      | heard _ down => simp [down] at next
      | dropped still => simp [still.2.1] at next
      | replied up down service heard =>
        rw [down] at next
        obtain ⟨rfl, rfl⟩ := List.cons.inj next
        refine ⟨h.beginning, ?_, ?_, ?_, up, rfl, service⟩
        · simp [split]
        · simp [split, heard]
        · simp [heard]
  · cases step

theorem close_echoes (h : Echoes cfg notes s) (step : close cfg s = some t) :
    Echoes cfg notes t := by
  have stands := h.stands
  unfold close at step
  split at step
  · next replies stage =>
    cases step
    rw [stage] at stands
    obtain ⟨nonempty, split, rfl, _⟩ := stands
    rw [List.append_nil] at split
    exact ⟨h.beginning, .inr ⟨nonempty, split.symm, by rw [split]⟩⟩
  · cases step

/-! ## The service and the network -/

/-- A step that moves no note and no reply, of a service that has started. -/
theorem Echoes.quiet (h : Echoes cfg notes s) {t : Session} (client : t.client = s.client)
    (heard : t.heard = s.heard) (up : t.stream.up = s.stream.up)
    (down : t.stream.down = s.stream.down)
    (service : t.service = s.service ∨ s.service ≠ .idle ∧ s.service.echoes = false ∧
      t.service.echoes = false) :
    Echoes cfg notes t := by
  have still : Still s → Still t := by
    rintro ⟨noUp, noDown, waits⟩
    refine ⟨up.trans noUp, down.trans noDown, ?_⟩
    rcases service with same | ⟨_, _, waits'⟩
    · rw [same]
      exact waits
    · exact waits'
  have waits : s.service.echoes = false → t.service.echoes = false := by
    rcases service with same | ⟨_, _, waits'⟩
    · rw [same]
      exact id
    · exact fun _ => waits'
  have stands := h.stands
  refine ⟨by rw [heard, up]; exact h.beginning, ?_⟩
  rw [client]
  cases stage : s.client with
  | opening ns =>
    rw [stage] at stands
    obtain ⟨same, nonempty, idle, nothing, quiet⟩ := stands
    rcases service with kept | ⟨started, _⟩
    · exact ⟨same, nonempty, kept.trans idle, heard.trans nothing, still quiet⟩
    · exact absurd idle started
  | sending rest replies =>
    rw [stage] at stands
    obtain ⟨nonempty, split, replied, quiet⟩ := stands
    exact ⟨nonempty, by rw [heard]; exact split, by rw [heard]; exact replied, still quiet⟩
  | waiting rest replies =>
    rw [stage] at stands
    obtain ⟨done, note, split, replied, pending⟩ := stands
    refine ⟨done, note, split, replied, ?_⟩
    cases pending with
    | sent noted none quiet is =>
      exact .sent (up.trans noted) (down.trans none) (waits quiet) (heard.trans is)
    | heard none none' echoing is =>
      rcases service with kept | ⟨_, quiet, _⟩
      · exact .heard (up.trans none) (down.trans none') (kept.trans echoing) (heard.trans is)
      · rw [echoing] at quiet
        cases quiet
    | replied none noted quiet is =>
      exact .replied (up.trans none) (down.trans noted) (waits quiet) (heard.trans is)
    | dropped quiet => exact .dropped (still quiet)
  | answered r =>
    rw [stage] at stands
    refine stands.imp_right fun ⟨nonempty, all, is⟩ => ⟨nonempty, heard.trans all, is⟩

theorem accept_echoes {valid : Bool} {md : Header} (h : Echoes cfg notes s)
    (step : accept cfg valid md s = some t) :
    Echoes cfg notes t := by
  unfold accept at step
  split at step
  · next stage =>
    split at step
    · cases step
      exact h.quiet rfl rfl rfl rfl (.inr ⟨by simp [stage], by simp [stage, Service.echoes], rfl⟩)
    · cases step
      exact h.quiet rfl rfl rfl rfl (.inr ⟨by simp [stage], by simp [stage, Service.echoes], rfl⟩)
  · cases step

/-- The service hears a note. -/
theorem Echoes.hear (h : Echoes cfg notes s) (stage : s.service = .receiving) {note : String}
    {rest : List String} (next : s.stream.up = note :: rest) :
    Echoes cfg notes { s with
      stream := { s.stream with up := rest }
      service := .echoing note
      heard := s.heard ++ [note] } := by
  have stands := h.stands
  refine ⟨?_, ?_⟩
  · have beginning := h.beginning
    rw [next] at beginning
    simpa using beginning
  show Stands cfg notes _ s.client
  cases is : s.client with
  | opening ns =>
    rw [is] at stands
    simp [stands.2.2.1] at stage
  | sending more replies =>
    rw [is] at stands
    simp [stands.2.2.2.1] at next
  | waiting more replies =>
    rw [is] at stands
    obtain ⟨done, note', split, replied, pending⟩ := stands
    refine ⟨done, note', split, replied, ?_⟩
    cases pending with
    | sent up down service heard =>
      rw [up] at next
      obtain ⟨rfl, rfl⟩ := List.cons.inj next
      exact .heard rfl down rfl (by simp [heard])
    | heard up _ _ _ => simp [up] at next
    | replied up _ _ _ => simp [up] at next
    | dropped still => simp [still.1] at next
  | answered r =>
    rw [is] at stands
    refine stands.imp_right fun ⟨_, all, _⟩ => ?_
    -- all notes were heard, so none was on its way
    have beginning := h.beginning
    rw [all, next] at beginning
    have short := beginning.length_le
    simp only [List.length_append, List.length_cons] at short
    omega

theorem take_echoes (h : Echoes cfg notes s) (step : take s = some t) : Echoes cfg notes t := by
  unfold take at step
  split at step
  · next stage =>
    obtain ⟨⟨got, stream⟩, taken, rfl⟩ := Option.map_eq_some_iff.mp step
    rcases Stream.taken taken with ⟨note, rest, next, rfl, rfl⟩ | ⟨_, _, rfl, rfl⟩
    · exact h.hear stage next
    · exact h.quiet rfl rfl rfl rfl (.inr ⟨by simp [stage], by simp [stage, Service.echoes], rfl⟩)
  · cases step

theorem takeError_echoes {status : Status} (h : Echoes cfg notes s)
    (step : takeError s status = some t) : Echoes cfg notes t := by
  unfold takeError at step
  split at step
  · next stage =>
    cases step
    exact h.quiet rfl rfl rfl rfl (.inr ⟨by simp [stage], by simp [stage, Service.echoes], rfl⟩)
  · cases step

/-- The service is with a note only while the gateway waits for its reply, or has given up. -/
theorem put_echoes {err : Option Status} (h : Echoes cfg notes s) (step : put s err = some t) :
    Echoes cfg notes t := by
  have stands := h.stands
  have echoing : ∃ note, s.service = .echoing note ∧
    (t = { s with service := .receiving, stream := s.stream.put (echo note) } ∨
      ∃ status, t = { s with service := .returned (some status) }) := by
    unfold put at step
    split at step
    · next note stage =>
      cases step
      exact ⟨note, stage, .inl rfl⟩
    · next note status stage =>
      cases step
      exact ⟨note, stage, .inr ⟨status, rfl⟩⟩
    · cases step
  obtain ⟨note, stage, next⟩ := echoing
  have kept : t.client = s.client ∧ t.heard = s.heard ∧ t.stream.up = s.stream.up := by
    rcases next with rfl | ⟨_, rfl⟩ <;> exact ⟨rfl, rfl, rfl⟩
  obtain ⟨client, heard, up⟩ := kept
  refine ⟨by rw [heard, up]; exact h.beginning, ?_⟩
  rw [client]
  cases is : s.client with
  | opening ns =>
    rw [is] at stands
    simp [stands.2.2.1] at stage
  | sending rest replies =>
    rw [is] at stands
    have still := stands.2.2.2
    simp [Still, stage, Service.echoes] at still
  | waiting rest replies =>
    rw [is] at stands
    obtain ⟨done, note', split, replied, pending⟩ := stands
    refine ⟨done, note', split, replied, ?_⟩
    cases pending with
    | sent _ _ quiet => simp [stage, Service.echoes] at quiet
    | replied _ _ quiet => simp [stage, Service.echoes] at quiet
    | dropped still => simp [Still, stage, Service.echoes] at still
    | heard none none' same is =>
      rw [stage] at same
      cases same
      rcases next with rfl | ⟨_, rfl⟩
      · exact .replied none (by simp [Stream.put, none']) rfl is
      · exact .dropped ⟨none, none', rfl⟩
  | answered r =>
    rw [is] at stands
    exact stands.imp_right fun ⟨nonempty, all, is⟩ => ⟨nonempty, heard.trans all, is⟩

theorem deliver_echoes (h : Echoes cfg notes s) (step : deliver s = some t) :
    Echoes cfg notes t := by
  unfold deliver at step
  split at step
  · obtain ⟨stream, ends, rfl⟩ := Option.map_eq_some_iff.mp step
    obtain ⟨_, rfl⟩ := Stream.settled ends
    exact h.quiet rfl rfl rfl rfl (.inl rfl)
  · cases step

theorem break_echoes {status : Status} (h : Echoes cfg notes s) (step : break_ s status = some t) :
    Echoes cfg notes t := by
  obtain ⟨stream, ends, rfl⟩ := Option.map_eq_some_iff.mp step
  cases Stream.failed ends
  exact h.quiet rfl rfl rfl rfl (.inl rfl)

/-! ## Every run -/

theorem echoes {req : Request} {valid : Bool} (h : (chat cfg req valid).Reachable s) :
    Echoes cfg ((cfg.notes req.body).getD []) s := by
  refine h.invariant ?_ ?_
  · rintro s rfl
    exact requested_echoes cfg req.body
  · intro s move t _ ih step
    cases move with
    | open_ err => exact open_echoes ih step
    | send ok => exact send_echoes ih step
    | recv early => exact recv_echoes ih step
    | close => exact close_echoes ih step
    | accept =>
      have step : accept cfg valid (withAuth req.header) s = some t := step
      exact accept_echoes ih step
    | take => exact take_echoes ih step
    | takeError status => exact takeError_echoes ih step
    | put err => exact put_echoes ih step
    | deliver => exact deliver_echoes ih step
    | break_ status => exact break_echoes ih step

/-- **A chat echoes every note.** In every run, the service hears a beginning of the notes, in their
order. An answer 200 has the echo of every note, in their order, and then the service has heard all
of them; any other answer is an error without replies. -/
theorem chat_echoes {req : Request} {valid : Bool} (h : (chat cfg req valid).Reachable s) :
    s.heard <+: (cfg.notes req.body).getD [] ∧ ∀ r, s.client = .answered r →
      (∃ status text, r = Handlers.writeError cfg.json status text ∧ status ≠ 200) ∨
      ∃ notes, cfg.notes req.body = some notes ∧ notes ≠ [] ∧ s.heard = notes ∧
        r = Handlers.writeJSON 200 (some (cfg.replies (notes.map echo))) := by
  have holds := echoes h
  refine ⟨(List.prefix_append _ _).trans holds.beginning, fun r answered => ?_⟩
  have stands := holds.stands
  rw [answered] at stands
  refine stands.imp_right fun ⟨nonempty, all, is⟩ => ?_
  cases read : cfg.notes req.body with
  | none => simp [read] at nonempty
  | some notes =>
    rw [read] at nonempty all is
    exact ⟨notes, rfl, nonempty, all, is⟩

/-- A note for each byte of a body, and a reply as its bytes. -/
def plainChat : Config where
  json := Handlers.plainJson
  notes body := some (body.map fun b => String.ofList [Char.ofNat b.toNat])
  replies := List.flatMap Go.bytes
  authEnabled := true

/-- Two notes. -/
def twoNotes : Request := ⟨"POST", "/gw/grpc/chat", Header.empty, [97, 98], "10.0.0.1:5000"⟩

/-- The stream breaks before the reply to the second note is received. -/
def lastReplyLost : List Step :=
  [.open_ none, .send true, .accept, .take, .put none, .recv false, .send true, .take, .put none,
    .break_ .broken, .recv true]

theorem chat_echoes_lastReplyLost :
    ∃ s r, (chat plainChat twoNotes false).Reachable s ∧ s.client = .answered r ∧
    s.heard = ["a", "b"] ∧
    ∃ status text, r = Handlers.writeError plainChat.json status text ∧ status ≠ 200 := by
  have replayed : ∃ s r, System.replay (step plainChat false (withAuth twoNotes.header))
    (requested plainChat twoNotes.body)
      lastReplyLost = some s ∧ s.client = .answered r ∧ s.heard = ["a", "b"] ∧ r.status = 502 :=
        ⟨_, _, rfl, rfl, rfl, rfl⟩
  obtain ⟨s, r, hs, answered, heard, status⟩ := replayed
  have reached : (chat plainChat twoNotes false).Reachable s := ⟨_, rfl, System.Runs.of_replay hs⟩
  refine ⟨s, r, reached, answered, heard, ?_⟩
  rcases (chat_echoes reached).2 r answered with failed | ⟨_, _, _, _, rfl⟩
  · exact failed
  · cases status

/-! ## While nothing fails -/

/-- A step of the gateway or of the service that is no failure. -/
inductive Quiet : Step → Prop
  | open_ : Quiet (.open_ none)
  | send : Quiet (.send true)
  | recv : Quiet (.recv false)
  | close : Quiet .close
  | accept : Quiet .accept
  | take : Quiet .take
  | put : Quiet (.put none)

/-- Where a chat is while nothing fails, and how many steps there are to its answer. -/
inductive Live (notes : List String) : Session → Nat → Prop
  | opening : Live notes ⟨.opening notes, .idle, .empty, []⟩ (4 * notes.length + 3)
  | entering : Live notes ⟨.sending notes [], .accepting, .empty, []⟩ (4 * notes.length + 2)
  | knocking (note : String) (rest : List String) (all : notes = note :: rest) :
      Live notes ⟨.waiting rest [], .accepting, { Stream.empty with up := [note] }, []⟩
        (4 * rest.length + 5)
  | sending (done rest : List String) (all : notes = done ++ rest) :
      Live notes ⟨.sending rest (done.map echo), .receiving, .empty, done⟩ (4 * rest.length + 1)
  | sent (done : List String) (note : String) (rest : List String)
      (all : notes = done ++ note :: rest) :
      Live notes ⟨.waiting rest (done.map echo), .receiving, { Stream.empty with up := [note] },
        done⟩ (4 * rest.length + 4)
  | heard (done : List String) (note : String) (rest : List String)
      (all : notes = done ++ note :: rest) :
      Live notes ⟨.waiting rest (done.map echo), .echoing note, .empty, done ++ [note]⟩
        (4 * rest.length + 3)
  | replied (done : List String) (note : String) (rest : List String)
      (all : notes = done ++ note :: rest) :
      Live notes ⟨.waiting rest (done.map echo), .receiving,
        { Stream.empty with down := [echo note] }, done ++ [note]⟩
        (4 * rest.length + 2)

/-- The answer with the echo of every note. -/
def Told (cfg : Config) (notes : List String) (s : Session) : Prop :=
  s.client = .answered (Handlers.writeJSON 200 (some (cfg.replies (notes.map echo))))

variable {valid : Bool} {md : Header} {move : Step} {n : Nat}

/-- No interceptor stops a chat. -/
theorem accept_chat {s : Session} (stage : s.service = .accepting) :
    step cfg valid md s .accept = some { s with service := .receiving } := by
  simp [step, accept, stage, checkMethod, protectedMethods]

/-- Any step that is no failure is one step less to the answer, or gives it. -/
theorem Live.next (nonempty : notes ≠ []) (h : Live notes s n) (quiet : Quiet move)
    (goes : step cfg valid md s move = some t) :
    ∃ m, n = m + 1 ∧ (Live notes t m ∨ m = 0 ∧ Told cfg notes t) := by
  cases h with
  | opening =>
    cases quiet with
    | open_ =>
      cases goes
      exact ⟨_, rfl, .inl .entering⟩
    | _ => cases goes
  | entering =>
    cases notes with
    | nil => exact absurd rfl nonempty
    | cons note rest =>
      cases quiet with
      | send =>
        cases goes
        exact ⟨_, rfl, .inl (.knocking note rest rfl)⟩
      | accept =>
        rw [accept_chat rfl] at goes
        cases goes
        exact ⟨_, rfl, .inl (.sending [] (note :: rest) rfl)⟩
      | _ => cases goes
  | knocking note rest all =>
    cases quiet with
    | accept =>
      rw [accept_chat rfl] at goes
      cases goes
      exact ⟨_, rfl, .inl (.sent [] note rest all)⟩
    | _ => cases goes
  | sending done rest all =>
    cases rest with
    | nil =>
      rw [List.append_nil] at all
      subst all
      cases quiet with
      | close =>
        cases goes
        exact ⟨0, rfl, .inr ⟨rfl, rfl⟩⟩
      | _ => cases goes
    | cons note rest =>
      cases quiet with
      | send =>
        cases goes
        exact ⟨_, rfl, .inl (.sent done note rest all)⟩
      | _ => cases goes
  | sent done note rest all =>
    cases quiet with
    | take =>
      cases goes
      exact ⟨_, rfl, .inl (.heard done note rest all)⟩
    | _ => cases goes
  | heard done note rest all =>
    cases quiet with
    | put =>
      cases goes
      exact ⟨_, rfl, .inl (.replied done note rest all)⟩
    | _ => cases goes
  | replied done note rest all =>
    cases quiet with
    | recv =>
      cases goes
      have split : notes = (done ++ [note]) ++ rest := by simp [all]
      have sending := Live.sending (done ++ [note]) rest split
      rw [List.map_append] at sending
      exact ⟨_, rfl, .inl sending⟩
    | _ => cases goes

/-- As long as there is no answer, one of the two can go on. -/
theorem Live.goes_on (h : Live notes s n) :
    ∃ move t, Quiet move ∧ step cfg valid md s move = some t := by
  cases h with
  | opening => exact ⟨_, _, .open_, rfl⟩
  | entering => exact ⟨_, _, .accept, accept_chat rfl⟩
  | knocking note rest all => exact ⟨_, _, .accept, accept_chat rfl⟩
  | sending done rest all =>
    cases rest with
    | nil => exact ⟨_, _, .close, rfl⟩
    | cons note rest => exact ⟨_, _, .send, rfl⟩
  | sent done note rest all => exact ⟨_, _, .take, rfl⟩
  | heard done note rest all => exact ⟨_, _, .put, rfl⟩
  | replied done note rest all => exact ⟨_, _, .recv, rfl⟩

/-- An answer stays. -/
theorem Told.step (h : Told cfg notes s) (goes : Chat.step cfg valid md s move = some t) :
    Told cfg notes t := by
  have client : s.client = _ := h
  cases move with
  | open_ err => simp [Chat.step, open_, client] at goes
  | send ok => simp [Chat.step, send, client] at goes
  | recv early => simp [Chat.step, recv, client] at goes
  | close => simp [Chat.step, close, client] at goes
  | accept =>
    simp only [Chat.step, accept] at goes
    split at goes
    · split at goes <;> (cases goes; exact h)
    · cases goes
  | take =>
    simp only [Chat.step, take] at goes
    split at goes
    · obtain ⟨⟨got, stream⟩, _, rfl⟩ := Option.map_eq_some_iff.mp goes
      cases got <;> exact h
    · cases goes
  | takeError status =>
    simp only [Chat.step, takeError] at goes
    split at goes <;> cases goes
    exact h
  | put err =>
    simp only [Chat.step, put] at goes
    split at goes <;> cases goes
    · exact h
    · exact h
  | deliver =>
    simp only [Chat.step, deliver] at goes
    split at goes
    · obtain ⟨stream, _, rfl⟩ := Option.map_eq_some_iff.mp goes
      exact h
    · cases goes
  | break_ status =>
    obtain ⟨stream, _, rfl⟩ := Option.map_eq_some_iff.mp goes
    exact h

theorem Told.run (h : Told cfg notes s) {moves : List Step}
    (runs : System.replay (Chat.step cfg valid md) s moves = some t) :
    Told cfg notes t := by
  induction moves generalizing s with
  | nil =>
    cases runs
    exact h
  | cons move rest ih =>
    obtain ⟨u, goes, runs⟩ := Option.bind_eq_some_iff.mp runs
    exact ih (h.step goes) runs

/-- Where a run without a failure leads: to the answer, or to fewer steps before it. -/
theorem Live.run (nonempty : notes ≠ []) {moves : List Step} (quiet : ∀ move ∈ moves, Quiet move)
    (h : Live notes s n) (runs : System.replay (Chat.step cfg valid md) s moves = some t) :
    (∃ m, n = moves.length + m ∧ Live notes t m) ∨ (n ≤ moves.length ∧ Told cfg notes t) := by
  induction moves generalizing s n with
  | nil =>
    cases runs
    exact .inl ⟨n, by simp, h⟩
  | cons move rest ih =>
    obtain ⟨u, goes, runs⟩ := Option.bind_eq_some_iff.mp runs
    obtain ⟨m, rfl, next⟩ := h.next nonempty (quiet move List.mem_cons_self) goes
    have later : ∀ move ∈ rest, Quiet move := fun move mem =>
      quiet move (List.mem_cons_of_mem _ mem)
    rw [List.length_cons]
    rcases next with live | ⟨rfl, told⟩
    · rcases ih later live runs with ⟨k, rfl, ends⟩ | ⟨less, told⟩
      · exact .inl ⟨k, by omega, ends⟩
      · exact .inr ⟨by omega, told⟩
    · exact .inr ⟨by omega, told.run runs⟩

theorem Live.pos (h : Live notes s n) : 0 < n := by
  cases h <;> omega

/-- **A chat completes.** While nothing fails, and in whatever order the two go on, one of them can
go on until the answer is there; and it is there after four steps a note and three more. -/
theorem chat_completes {req : Request} (read : cfg.notes req.body = some notes)
    (nonempty : notes ≠ []) {moves : List Step} (quiet : ∀ move ∈ moves, Quiet move)
    (runs : System.replay (step cfg valid (withAuth req.header))
      (requested cfg req.body) moves = some s) :
    (moves.length < 4 * notes.length + 3 → ∃ move t, Quiet move ∧
      step cfg valid (withAuth req.header) s move = some t) ∧
    (4 * notes.length + 3 ≤ moves.length →
      s.client = .answered (Handlers.writeJSON 200 (some (cfg.replies (notes.map echo))))) := by
  have begins : requested cfg req.body = ⟨.opening notes, .idle, .empty, []⟩ := by
    simp [requested, grpcChat, read, nonempty]
  rw [begins] at runs
  rcases Live.opening.run nonempty quiet runs with ⟨m, sum, live⟩ | ⟨enough, told⟩
  · refine ⟨fun _ => live.goes_on, fun enough => ?_⟩
    have left := live.pos
    omega
  · exact ⟨fun less => absurd enough (by omega), fun _ => told⟩

/-- One note after the other. -/
def inTurn : List Step :=
  [.open_ none, .accept, .send true, .take, .put none, .recv false, .send true, .take, .put none,
    .recv false, .close]

theorem chat_completes_twoNotes :
    ∃ s, System.replay (step plainChat false (withAuth twoNotes.header))
      (requested plainChat twoNotes.body)
    inTurn = some s ∧ s.client = .answered
      (Handlers.writeJSON 200 (some (plainChat.replies ["эхо: a", "эхо: b"]))) := by
  have replayed : ∃ s, System.replay (step plainChat false (withAuth twoNotes.header))
    (requested plainChat twoNotes.body) inTurn =
      some s := ⟨_, rfl⟩
  obtain ⟨s, hs⟩ := replayed
  have quiet : ∀ move ∈ inTurn, Quiet move := by
    intro move mem
    simp only [inTurn, List.mem_cons, List.not_mem_nil, or_false] at mem
    rcases mem with rfl | rfl | rfl | rfl | rfl | rfl | rfl | rfl | rfl | rfl | rfl <;> constructor
  have read : plainChat.notes twoNotes.body = some ["a", "b"] := rfl
  have answered := (chat_completes read (by decide) quiet hs).2 (by decide)
  have replies : ["a", "b"].map echo = ["эхо: a", "эхо: b"] := by decide
  rw [replies] at answered
  exact ⟨s, hs, answered⟩

end OtusApp.Gateway.Chat
