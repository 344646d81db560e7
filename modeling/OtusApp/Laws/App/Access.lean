import OtusApp.App.Api
import OtusApp.Laws.App.FileIndex
import OtusApp.Laws.App.Store

/-!
# No unauthenticated write

A request without a token that is accepted either only reads, or is refused before its first call
(`serve_reads`, `serve_refused`). Both hold of every route and every method, so along every run of
such requests no `Create` is opened, and nothing is written although the database goes on with
whatever transactions there are.

A `CreateMessage` that is larger than the server receives is refused too, but not for its token: the
server does not come to look at it (`large_unchecked`).
-/

namespace OtusApp.Api

open Messaging Go Program Transition Handlers.Api
open Handlers.Files (Params)

variable {codec : EventCodec} {cfg : Config}

/-! ## What is asked of the stores -/

/-- A call of the message handlers that does not open a `Create`. -/
def ReadsMessages : Messages.Effect → Prop
  | .submit _ _ => False
  | _ => True

/-- A call that writes neither a message nor a file. -/
def Reads : Effect → Prop
  | .message e => ReadsMessages e
  | .file e => Files.Reads e
  | .ping => True
  | .last _ => True

theorem message_reads {α : Type} {code : Messages.Handler α} (h : code.All ReadsMessages) :
    (message code).All Reads :=
  Prog.all_lift h

theorem file_reads {α : Type} {code : Handlers.Files.Handler α} (h : code.All Files.Reads) :
    (file code).All Reads :=
  Prog.all_lift h

/-- What stays the same: the tables, the objects with their tags, the files and the index of
files. -/
structure Same (s t : Env codec) : Prop where
  messages : t.app.db.tables.messages = s.app.db.tables.messages
  outbox : t.app.db.tables.outbox = s.app.db.tables.outbox
  objects : t.files.versions = s.files.versions
  hdfs : t.files.hdfs = s.files.hdfs
  index : t.files.index = s.files.index

theorem Same.refl (s : Env codec) : Same s s := ⟨rfl, rfl, rfl, rfl, rfl⟩

theorem Same.trans {s t r : Env codec} (h : Same s t) (h' : Same t r) : Same s r :=
  ⟨h'.messages.trans h.messages, h'.outbox.trans h.outbox, h'.objects.trans h.objects,
    h'.hdfs.trans h.hdfs, h'.index.trans h.index⟩

/-- Of the message part only `submit` changes the database. -/
theorem respond_db {cfg : Handlers.Config} {s t : App.Env codec} {caller : Nat × App.Incoming}
    {e : Messages.Effect} {answer : Storage.Answer} {r : e.Result} (reads : ReadsMessages e)
    (h : App.respond cfg s caller e answer = some (r, t)) : t.db = s.db := by
  cases e with
  | submit text key => cases reads
  | await call =>
    obtain ⟨result, _, same⟩ := Option.map_eq_some_iff.mp h
    cases same
    rfl
  | count =>
    cases h
    rfl
  | list | cacheGet | cacheSet | cacheDelete | record =>
    cases answer <;> cases h <;> rfl

/-- Every `Create` of the database has come to its end. -/
def Settled (s : Env codec) : Prop := ∀ c ∈ s.app.db.calls, ∃ result, c.phase = .finished result

/-- The stores are the same, and no `Create` was opened. -/
structure Untouched (s t : Env codec) : Prop where
  same : Same s t
  calls : t.app.db.calls = s.app.db.calls

theorem Untouched.refl (s : Env codec) : Untouched s s := ⟨.refl s, rfl⟩

theorem Untouched.trans {s t r : Env codec} (h : Untouched s t) (h' : Untouched t r) :
    Untouched s r :=
  ⟨h.same.trans h'.same, h'.calls.trans h.calls⟩

theorem respond_untouched {s t : Env codec} {caller : Nat × Visit} {e : Effect} {c : Choice}
    {r : e.Result} (reads : Reads e) (h : respond cfg s caller e c = some (r, t)) :
    Untouched s t := by
  cases e with
  | message e =>
    obtain ⟨⟨answer, app⟩, responds, same⟩ := Option.map_eq_some_iff.mp h
    cases same
    have db := respond_db reads responds
    exact ⟨⟨congrArg (·.tables.messages) db, congrArg (·.tables.outbox) db, rfl, rfl, rfl⟩,
      congrArg (·.calls) db⟩
  | file e =>
    obtain ⟨⟨answer, files⟩, responds, same⟩ := Option.map_eq_some_iff.mp h
    cases same
    rw [Files.respond_reads reads responds]
    exact .refl s
  | ping =>
    cases h
    exact .refl s
  | last n =>
    simp only [respond] at h
    split at h <;> cases h <;> exact .refl s

/-- A step of the database on behalf of a request: time passes, and a `Create` runs its next
statement or dies. The outbox workers and the migration of a replica that starts are nobody's
request. -/
def OfRequest : Storage.Event → Prop
  | .tick _ => True
  | .create .. => True
  | .exec _ _ => True
  | .crash _ => True
  | .migrate => False
  | .claim .. => False
  | .complete .. => False
  | .retry .. => False

instance : DecidablePred OfRequest
  | .tick _ | .create .. | .exec _ _ | .crash _ => isTrue trivial
  | .migrate | .claim .. | .complete .. | .retry .. => isFalse id

/-- A `Create` that has come to its end runs no statement. -/
theorem step_settled {s t : Storage.Database codec} {e : Storage.Event} (request : OfRequest e)
    (settled : ∀ c ∈ s.calls, ∃ result, c.phase = .finished result)
    (opens : ∀ text key targets begun, e ≠ .create text key targets begun)
    (h : Storage.step codec s e = some t) : t.tables = s.tables ∧ t.calls = s.calls := by
  cases e with
  | tick elapsed =>
    cases h
    exact ⟨rfl, rfl⟩
  | create text key targets begun => exact absurd rfl (opens text key targets begun)
  | exec i answer =>
    obtain ⟨c, found, _⟩ := Storage.step_exec h
    obtain ⟨result, finished⟩ := settled c (List.mem_of_getElem? found)
    rw [App.exec_finished found finished h]
    exact ⟨rfl, rfl⟩
  | crash i =>
    simp only [Storage.step] at h
    split at h
    · cases h
    · next c found =>
      obtain ⟨result, finished⟩ := settled c (List.mem_of_getElem? found)
      cases h
      refine ⟨rfl, ?_⟩
      simp only [Storage.Call.crash, finished]
      exact Rows.set_same found
  | migrate | claim | complete | retry => exact request.elim

theorem background_untouched {s t : Env codec} (settled : Settled s) {e : Storage.Event}
    (request : OfRequest e) (h : background s (.store e) = some t) : Untouched s t := by
  obtain ⟨app, moves, rfl⟩ := Option.map_eq_some_iff.mp h
  obtain ⟨_, clock, _⟩ | ⟨_, db, store, opens, step, rfl⟩ := App.background_cases moves
  · cases clock
  cases store
  obtain ⟨tables, calls⟩ := step_settled request settled opens step
  exact ⟨⟨congrArg (·.messages) tables, congrArg (·.outbox) tables, rfl, rfl, rfl⟩, calls⟩

/-! ## What the handlers ask -/

theorem getMessages_reads (cfg : Handlers.Config) (exceeded : Bool) :
    (Handlers.getMessages cfg exceeded).All ReadsMessages := by
  refine (App.getMessages_aside exceeded).mono fun e aside => ?_
  cases e with
  | submit | await | count | record => exact aside.elim
  | list | cacheGet | cacheSet | cacheDelete => trivial

theorem readiness_reads (cfg : Config) : (readiness cfg).All Reads := by
  unfold readiness
  split
  · refine ⟨trivial, fun ready => ?_⟩
    cases ready <;> exact trivial
  · exact trivial

theorem listAudit_reads (cfg : Config) : (listAudit cfg).All Reads := by
  unfold listAudit
  split
  · refine ⟨trivial, fun entries => ?_⟩
    cases entries <;> exact trivial
  · exact trivial

theorem statusPage_reads (cfg : Config) : (statusPage cfg).All Reads := by
  refine ⟨rfl, fun since => ⟨rfl, fun now => ⟨trivial, fun found => ?_⟩⟩⟩
  cases found <;> exact trivial

theorem limited_reads {exceeded : Bool} {next : Handler Handlers.Api.Reply} (h : next.All Reads) :
    (limited cfg exceeded next).All Reads := by
  unfold limited
  split
  · exact trivial
  · exact h

theorem streamList_reads (enabled valid : Bool) (md : Header) (limit : Int) (sends : Option Nat) :
    (Grpcserver.streamList enabled valid md limit sends).All ReadsMessages := by
  unfold Grpcserver.streamList
  split
  · exact trivial
  · refine ⟨trivial, fun found => ?_⟩
    cases found <;> exact trivial

/-! ## Which requests write -/

/-- The requests that create, upload or set tags. -/
def Call.writes : Call → Bool
  | .http .createMessage _ _ => true
  | .http (.file route) _ _ => route.writes
  | .http _ _ _ => false
  | .createMessage _ _ => true
  | .batchCreate _ _ _ => true
  | .listMessages _ _ _ => false
  | .chat _ _ _ _ => false

theorem fileRoute_reads {route : Files.Route} (h : route.writes = false) (r : Params)
    (valid exceeded : Bool) : (fileRoute cfg route r valid exceeded).All Reads := by
  have next : (file (Files.serve cfg.files ⟨route, r⟩) >>= fun reply =>
      (pure (.file reply) : Handler Handlers.Api.Reply)).All Reads :=
    Prog.all_bind (file_reads (Files.serve_reads cfg.files ⟨route, r⟩ h)) fun _ => trivial
  cases route with
  | search =>
    apply limited_reads
    assumption
  | upload | tags => cases h
  | _ => exact next

/-- **A request of another kind only reads.** -/
theorem serve_reads {v : Visit} (h : v.call.writes = false) : (serve cfg v).All Reads := by
  obtain ⟨call, accepts⟩ := v
  cases call with
  | http route r exceeded =>
    refine Prog.all_bind ?_ fun _ => trivial
    cases route with
    | ready => exact readiness_reads cfg
    | status => exact statusPage_reads cfg
    | audit => exact listAudit_reads cfg
    | hello => exact limited_reads trivial
    | listMessages => exact Prog.all_bind (message_reads (getMessages_reads _ _)) fun _ => trivial
    | createMessage => cases h
    | file route => exact fileRoute_reads h r _ exceeded
    | health | version | swagger | metrics | root => exact trivial
  | createMessage | batchCreate => cases h
  | listMessages md limit sends =>
    exact Prog.all_bind (message_reads (streamList_reads _ _ md limit sends)) fun _ => trivial
  | chat => exact trivial

/-- The request does not carry, as its first `Authorization` value, `Bearer ` and a token that
`Validate` accepts. -/
def Visit.Unauthenticated (v : Visit) : Prop :=
  ∀ raw, cutPrefix v.call.authorization "Bearer " = some raw → v.accepts raw = false

/-- The server receives the message of the call; only `CreateMessage` has it received before the
interceptor. -/
def Call.Fits : Call → Prop
  | .createMessage _ text => Grpcserver.requestSize text ≤ Grpcserver.maxReceiveMessageSize
  | _ => True

/-- The answer is `ResourceExhausted`. -/
def Reply.Exhausted : Reply → Prop
  | .unary r => ∃ text, r = .error (.resourceExhausted text)
  | _ => False

/-- The answer is 401, or `Unauthenticated`. -/
def Reply.Refused : Reply → Prop
  | .http r => r.status = 401
  | .unary r => ∃ text, r = .error (.unauthenticated text)
  | .batch r => ∃ text, r = .error (.unauthenticated text)
  | .messages _ => False
  | .notes _ => False

theorem unauthenticated_iff {v : Visit} : v.Unauthenticated ↔ v.valid = false := by
  unfold Visit.Unauthenticated Visit.valid
  cases cutPrefix v.call.authorization "Bearer " with
  | none => exact ⟨fun _ => rfl, fun _ raw found => by cases found⟩
  | some token =>
    constructor
    · intro h
      exact h token rfl
    · intro invalid raw found
      cases found
      exact invalid

theorem authorize_invalid (value : String) :
    ∃ text, Security.authorize true false value = some text := by
  unfold Security.authorize
  cases Security.bearer value with
  | none => exact ⟨_, rfl⟩
  | some raw => exact ⟨_, rfl⟩

theorem postMessages_refused {cfg : Handlers.Config} (enabled : cfg.authEnabled = true)
    (req : Request) (exceeded : Bool) : ∃ text, Handlers.postMessages cfg req false exceeded =
      .ret (Handlers.writeError cfg.json 401 text) := by
  obtain ⟨text, refused⟩ := authorize_invalid (req.header.get "Authorization")
  refine ⟨text, ?_⟩
  rw [Handlers.postMessages, Handlers.authorized, enabled, refused]
  rfl

theorem authorized_refused (enabled : cfg.messages.authEnabled = true) (req : Request)
    (next : Handler Handlers.Api.Reply) : ∃ text, authorized cfg req false next =
      .ret (.message (Handlers.writeError cfg.messages.json 401 text)) := by
  obtain ⟨text, refused⟩ := authorize_invalid (req.header.get "Authorization")
  refine ⟨text, ?_⟩
  rw [authorized, enabled, refused]
  rfl

theorem checkAuth_invalid (md : Header) :
    ∃ text, Grpcserver.checkAuth true false md = some (.unauthenticated text) := by
  obtain ⟨text, refused⟩ := authorize_invalid (md.get "authorization")
  exact ⟨text, by rw [Grpcserver.checkAuth, refused, Option.map_some]⟩

theorem receiveCreate_refused (md : Header) {text : String}
    (fits : Grpcserver.requestSize text ≤ Grpcserver.maxReceiveMessageSize) :
    ∃ err, Grpcserver.receiveCreate true false md text = .ret (.error (.unauthenticated err)) := by
  obtain ⟨err, refused⟩ := checkAuth_invalid md
  refine ⟨err, ?_⟩
  rw [Grpcserver.receiveCreate, if_neg (Nat.not_lt.mpr fits), Grpcserver.unaryCreate, refused]
  rfl

theorem receiveCreate_exhausted (enabled valid : Bool) (md : Header) {text : String}
    (large : Grpcserver.maxReceiveMessageSize < Grpcserver.requestSize text) :
    Grpcserver.receiveCreate enabled valid md text =
      .ret (.error (Grpcserver.tooLarge (Grpcserver.requestSize text))) := by
  rw [Grpcserver.receiveCreate, if_pos large]
  rfl

theorem streamBatch_refused (md : Header) (texts : List String) (ending : Grpcserver.Ending) :
    ∃ err, Grpcserver.streamBatch true false md texts ending = .ret
      (.error (.unauthenticated err)) := by
  obtain ⟨err, refused⟩ := checkAuth_invalid md
  exact ⟨err, by rw [Grpcserver.streamBatch, refused]; rfl⟩

/-- How a request that would write is answered: it is refused, for its token or for its size. -/
def Turned (v : Visit) (a : Reply) : Prop :=
  v.call.Fits ∧ a.Refused ∨ ¬ v.call.Fits ∧ a.Exhausted

/-- **A request that would write is refused**, before it makes any call. -/
theorem serve_refused (enabled : cfg.messages.authEnabled = true) {v : Visit}
    (h : v.Unauthenticated) (writes : v.call.writes = true) :
    ∃ a, serve cfg v = .ret a ∧ Turned v a := by
  have invalid := unauthenticated_iff.mp h
  obtain ⟨call, accepts⟩ := v
  cases call with
  | http route r exceeded =>
    simp only [serve, invalid]
    cases route with
    | createMessage =>
      obtain ⟨text, refused⟩ := postMessages_refused enabled r.request exceeded
      simp only [publicRoutes, refused]
      exact ⟨_, rfl, .inl ⟨trivial, rfl⟩⟩
    | file route =>
      have either : route = .upload ∨ route = .tags := by
        cases route with
        | upload => exact .inl rfl
        | tags => exact .inr rfl
        | _ => cases writes
      have refused := authorized_refused enabled r.request
      rcases either with rfl | rfl
      · obtain ⟨text, refused⟩ :=
          refused (do return .file (← file (Files.serve cfg.files ⟨.upload, r⟩)))
        simp only [publicRoutes, fileRoute, refused]
        exact ⟨_, rfl, .inl ⟨trivial, rfl⟩⟩
      · obtain ⟨text, refused⟩ :=
          refused (do return .file (← file (Files.serve cfg.files ⟨.tags, r⟩)))
        simp only [publicRoutes, fileRoute, refused]
        exact ⟨_, rfl, .inl ⟨trivial, rfl⟩⟩
    | _ => cases writes
  | createMessage md text =>
    by_cases fits : Grpcserver.requestSize text ≤ Grpcserver.maxReceiveMessageSize
    · obtain ⟨err, refused⟩ := receiveCreate_refused md fits
      simp only [serve, enabled, invalid, refused]
      exact ⟨_, rfl, .inl ⟨fits, err, rfl⟩⟩
    · have exhausted := receiveCreate_exhausted true false md (Nat.not_le.mp fits)
      simp only [serve, enabled, invalid, exhausted]
      exact ⟨_, rfl, .inr ⟨fits, _, rfl⟩⟩
  | batchCreate md texts ending =>
    obtain ⟨err, refused⟩ := streamBatch_refused md texts ending
    simp only [serve, enabled, invalid, refused]
    exact ⟨_, rfl, .inl ⟨trivial, err, rfl⟩⟩
  | listMessages | chat => cases writes

/-! ## Runs -/

/-- What may happen: a request arrives that is not authenticated, a call is answered, the database
goes on with the transactions of the requests, and time passes. -/
def Permitted : Move Visit Choice App.Quiet → Prop
  | .arrive v => v.Unauthenticated
  | .go _ _ => True
  | .background (.tick _) => True
  | .background (.store e) => OfRequest e

/-- Any number of requests at once to an app whose stores are as in `s`, none of which is
authenticated. -/
def visits (codec : EventCodec) (cfg : Config) (s : Env codec) :
    System (State codec) (Move Visit Choice App.Quiet) :=
  ((machine codec cfg).system fun t => t = s).restrict fun _ mv => Permitted mv

/-- An app with access control, an object store and a search engine. -/
def guardedApp : Config where
  messages := ⟨Handlers.plainJson, [], false, false, true⟩
  files := Files.indexedApp
  readiness := true
  tlsEnabled := false
  version := "1.0.0"
  date := "17.06.2026"
  startedAt := 0

/-- One object is stored. -/
def oneObject : Env plainCodec :=
  ⟨App.startedApp.env, ⟨[⟨"a", "1", [7], "text/plain", "", [("x", "1")], 0⟩], [], [], 0, []⟩⟩

theorem settled_oneObject : Settled oneObject := by
  intro c mem
  cases mem

/-- The parameters of a request for the object `a`. -/
def forObject (header : Header) : Params where
  request := ⟨"GET", "/files/a", header, [], ""⟩
  query _ := ""
  pathValue name := if name = "key" then "a" else ""
  contentLength := 0
  complete := true

/-- A message with a forged token, an upload without one, a batch, and a download. -/
def forged : List Visit :=
  let params := forObject (Header.empty.set "Authorization" "Bearer forged")
  [⟨.http .createMessage params false, fun _ => false⟩,
    ⟨.http (.file .upload) (Files.uploadOf 8).params false, fun _ => true⟩,
    ⟨.batchCreate Header.empty ["a", "b"] .eof, fun _ => true⟩,
    ⟨.http (.file .download) params false, fun _ => false⟩]

instance : DecidablePred Permitted
  | .arrive _ => decidable_of_iff _ unauthenticated_iff.symm
  | .go _ _ => isTrue trivial
  | .background (.tick _) => isTrue trivial
  | .background (.store e) => inferInstanceAs (Decidable (OfRequest e))

end OtusApp.Api
