import OtusApp.App.Commands
import OtusApp.Laws.App.Store
import OtusApp.Lib.Lockstep

/-!
# One command, two front ends

As long as the gRPC server takes the message and the gateway's client takes the reply, a command
does the same through either front end (`issue_agree`): checks, calls and answers are the same. So
any run stays the same, state by state and answer by answer, when its commands are issued the other
way.

What is over the limit parts the two: a message that the server refuses is not stored
(`issue_refused`), and a reply that the client refuses is an error, although the message is stored
(`reply_refused`).
-/

namespace OtusApp.Commands

open Messaging Messages Go Storage Program Transition

variable {codec : EventCodec} {cfg : Handlers.Config} {wire : Wire cfg.json}

/-! ## The program -/

/-- The gRPC server takes the command's message. -/
def Command.Fits (c : Command) : Prop :=
  Grpcserver.requestSize c.text ≤ Grpcserver.maxReceiveMessageSize

instance (c : Command) : Decidable c.Fits := inferInstanceAs (Decidable (_ ≤ _))

/-- A `Create` that succeeds is told of a message that a reply can carry. -/
def Carried : (e : Effect) → e.Result → Prop
  | .await _, .ok m => (Grpcserver.toProto m).size ≤ Grpcserver.maxReceiveMessageSize
  | _, _ => True

theorem received_carried {m : Message}
    (h : (Grpcserver.toProto m).size ≤ Grpcserver.maxReceiveMessageSize) :
    Gateway.received (.ok (Grpcserver.toProto m)) = .ok (Grpcserver.toProto m) :=
  if_neg (Nat.not_lt.mpr h)

theorem create_of_not_blank {text : String} (key : String) (filled : ¬ Blank text) :
    create text key = .call (.submit text key) fun call => .call (.await call) .ret := by
  simp only [create, validateText, if_neg filled]
  rfl

/-- What is done with the result of a `Create` and what the gateway makes of it are the same. -/
theorem createMessage_agree (quiet : cfg.cached = false ∧ cfg.audited = false) (req : Request)
    (md : Header) {text : String} (decodes : cfg.json.text req.body = some text)
    (key : md.get "idempotency-key" = req.header.get "Idempotency-Key") :
    (Handlers.createMessage cfg req).Agree Carried (do
      let outcome ← Grpcserver.createMessage md text
      return Gateway.writeOutcome cfg.json
        (Gateway.received (outcome.map Grpcserver.toProto))) := by
  unfold Handlers.createMessage Grpcserver.createMessage
  simp only [decodes, validateText]
  by_cases blank : Blank text
  · simp only [if_pos blank]
    exact .refl _
  · simp only [if_neg blank, create_of_not_blank _ blank, key]
    refine .call fun call _ => .call fun result carried => ?_
    cases result with
    | error err => cases err <;> exact .refl _
    | ok msg =>
      simp only [Handlers.audit, Handlers.invalidate, quiet, Bool.false_eq_true, if_false]
      refine .call fun _ _ => ?_
      have answer :
          Gateway.writeOutcome cfg.json (Gateway.received (.ok (Grpcserver.toProto msg))) =
            Handlers.writeJSON 201 (cfg.json.message msg) := by
        rw [received_carried carried, Gateway.writeOutcome, Gateway.fromProto_toProto]
      rw [← answer]
      exact .ret _

theorem issue_agree (quiet : cfg.cached = false ∧ cfg.audited = false) {c : Command}
    (fits : c.Fits) :
    (issue cfg wire (c, .http)).Agree Carried (issue cfg wire (c, .grpc)) := by
  have decodes : cfg.json.text (c.request wire).body = some c.text := wire.decodes c.text
  have token := Gateway.get_authorization_withAuth (c.request wire).header
  have key := Gateway.get_key_withAuth (c.request wire).header
  simp only [issue, Gateway.grpcCreate, decodes, Grpcserver.receiveCreate,
    if_neg (Nat.not_lt.mpr fits),
    Grpcserver.unaryCreate, Grpcserver.checkAuth, token, Handlers.postMessages, Handlers.authorized,
    Handlers.limited, Bool.false_eq_true, if_false]
  cases Security.authorize cfg.authEnabled c.valid
    ((c.request wire).header.get "Authorization") with
  | some text => exact .refl _
  | none =>
    simp only [Option.map_none]
    have same := createMessage_agree quiet (c.request wire) _ decodes key
    exact (Prog.bind_assoc ..).symm ▸ same

/-! ## Runs -/

/-- The same store, clock, cache, counter and audit log. -/
structure Same (s s' : App.Env codec) : Prop where
  db : s.db = s'.db
  clock : s.clock = s'.clock
  cache : s.cache = s'.cache
  created : s.created = s'.created
  audit : s.audit = s'.audit

/-- The same command, which fits, through either front end. -/
def Reissued (q q' : Command × Front) : Prop := q.1 = q'.1 ∧ q.1.Fits

theorem respond_same {s s' : App.Env codec} (same : Same s s') (caller caller' : Nat × App.Incoming)
    (e : Effect) (answer : Answer) :
    Option.Rel (fun a a' => a.1 = a'.1 ∧ Same a.2 a'.2) (App.respond cfg s caller e answer)
      (App.respond cfg s' caller' e answer) := by
  obtain ⟨db, clock, cache, created, audit, origin⟩ := s
  obtain ⟨_, _, _, _, _, origin'⟩ := s'
  obtain ⟨rfl, rfl, rfl, rfl, rfl⟩ := same
  cases e with
  | submit text key =>
    simp only [App.respond]
    cases step codec _ _ with
    | none => exact .none
    | some db => exact .some ⟨rfl, rfl, rfl, rfl, rfl, rfl⟩
  | await call =>
    simp only [App.respond]
    cases (db.calls[call]?).bind Call.result with
    | none => exact .none
    | some result => exact .some ⟨rfl, rfl, rfl, rfl, rfl, rfl⟩
  | count => exact .some ⟨rfl, rfl, rfl, rfl, rfl, rfl⟩
  | list | cacheGet | cacheSet | cacheDelete | record =>
    cases answer <;> exact .some ⟨rfl, rfl, rfl, rfl, rfl, rfl⟩

theorem background_same {s s' : App.Env codec} (same : Same s s') (b : App.Quiet) :
    Option.Rel Same (App.background s b) (App.background s' b) := by
  obtain ⟨db, clock, cache, created, audit, origin⟩ := s
  obtain ⟨_, _, _, _, _, origin'⟩ := s'
  obtain ⟨rfl, rfl, rfl, rfl, rfl⟩ := same
  cases b with
  | tick elapsed => exact .some ⟨rfl, rfl, rfl, rfl, rfl⟩
  | store e =>
    cases e with
    | create => exact .none
    | tick | migrate | exec | crash | claim | complete | retry =>
      simp only [App.background]
      cases step codec _ _ with
      | none => exact .none
      | some db => exact .some ⟨rfl, rfl, rfl, rfl, rfl⟩

/-- Every message that a `Create` has brought its caller fits a reply. -/
def Fit (s : App.Env codec) : Prop :=
  ∀ c ∈ s.db.calls, ∀ m, c.result = some (.ok m) →
    (Grpcserver.toProto m).size ≤ Grpcserver.maxReceiveMessageSize

theorem respond_carried {s t : App.Env codec} (fit : Fit s) {caller : Nat × App.Incoming}
    {e : Effect} {answer : Answer} {r : e.Result}
    (h : App.respond cfg s caller e answer = some (r, t)) : Carried e r := by
  cases e with
  | await call =>
    obtain ⟨result, found, told⟩ := Option.map_eq_some_iff.mp h
    cases told
    obtain ⟨c, there, is⟩ := Option.bind_eq_some_iff.mp found
    cases r with
    | error err => trivial
    | ok m => exact fit c (List.mem_of_getElem? there) m is
  | submit | count | list | cacheGet | cacheSet | cacheDelete | record => trivial

theorem commands_lockstep (quiet : cfg.cached = false ∧ cfg.audited = false) :
    (machine codec cfg wire).Lockstep Reissued Carried Fit Same where
  handler q q' reissued := by
    obtain ⟨c, front⟩ := q
    obtain ⟨_, front'⟩ := q'
    obtain ⟨rfl, fits⟩ := reissued
    have either : (issue cfg wire (c, .http)).Agree Carried (issue cfg wire (c, .grpc)) :=
      issue_agree quiet fits
    cases front <;> cases front'
    · exact .refl _
    · exact either
    · exact either.symm
    · exact .refl _
  admitted s caller e c r t fit responds := respond_carried fit responds
  arrive s s' _ _ same _ := .some same
  respond s s' i q q' e c same _ := respond_same same _ _ e c
  background s s' b same := background_same same b

/-- The same commands with the same answers, as far as there are any, over the same store. -/
structure Matching (w w' : State codec) : Prop where
  same : Same w.env w'.env
  number : w.procs.length = w'.procs.length
  answers : ∀ (i : Nat) q r, w.procs[i]? = some (q, .ret r) →
    ∃ q', Reissued q q' ∧ w'.procs[i]? = some (q', .ret r)
  waits : ∀ (i : Nat) q e k, w.procs[i]? = some (q, .call e k) →
    ∃ q' k', Reissued q q' ∧ w'.procs[i]? = some (q', .call e k')

theorem matching_of_alike {w w' : State codec} (h : w.Alike Reissued Carried Same w') :
    Matching w w' where
  same := h.env
  number := h.procs.length_eq
  answers i q r returned := h.answers returned
  waits i q e k waiting := by
    have entry := Rows.forall₂_getElem? h.procs i
    rw [waiting] at entry
    generalize found : w'.procs[i]? = other at entry
    obtain @⟨_, ⟨q', p'⟩, related, agree⟩ := entry
    cases agree
    exact ⟨q', _, related, rfl⟩

/-- **The same command.** A run in which commands that fit are issued in other ways, and every
message that a `Create` brings fits a reply, goes through the same stores, makes the same calls, and
gives each command the same answer. -/
theorem same_command (quiet : cfg.cached = false ∧ cfg.audited = false) {w : State codec}
    (start : w.procs = []) {moves moves' : List (Move (Command × Front) Answer App.Quiet)}
    (reissued : List.Forall₂ (Move.Like Reissued) moves moves')
    (fit : ∀ t ∈ w :: trace (machine codec cfg wire).step w moves, Fit t.env) :
    List.Forall₂ Matching (trace (machine codec cfg wire).step w moves)
      (trace (machine codec cfg wire).step w moves') := by
  have alike : w.Alike Reissued Carried Same w := by
    refine ⟨⟨rfl, rfl, rfl, rfl, rfl⟩, ?_⟩
    rw [start]
    exact .nil
  exact ((commands_lockstep quiet).trace alike reissued fit).imp fun _ _ => matching_of_alike

/-- Characters of three bytes. -/
def wideChars : Bytes → List Char
  | a :: b :: c :: rest => Char.ofNat (a.toNat * 65536 + b.toNat * 256 + c.toNat) :: wideChars rest
  | _ => []

/-- Bodies of three bytes for each character. -/
def wideJson : Handlers.Json where
  text body := some (String.ofList (wideChars body))
  error := Go.bytes
  message m := some [UInt8.ofNat m.id]
  messages ms := some (ms.map fun m => UInt8.ofNat m.id)

def wideBytes (c : Char) : Bytes :=
  [UInt8.ofNat (c.toNat / 65536), UInt8.ofNat (c.toNat / 256), UInt8.ofNat c.toNat]

theorem wideChars_wideBytes (chars : List Char) : wideChars (chars.flatMap wideBytes) = chars := by
  induction chars with
  | nil => rfl
  | cons c rest ih =>
    have valid : c.toNat.isValidChar := c.valid
    have bound : c.toNat < 1114112 := by
      rcases valid with low | ⟨_, high⟩ <;> omega
    have whole : c.toNat / 65536 % 256 * 65536 + c.toNat / 256 % 256 * 256 +
        c.toNat % 256 = c.toNat := by
      omega
    simp only [List.flatMap_cons, wideBytes, List.cons_append, List.nil_append, wideChars, ih,
      UInt8.toNat_ofNat', whole, Char.ofNat_toNat]

def wideWire : Wire wideJson where
  body text := text.toList.flatMap wideBytes
  decodes text := by simp only [wideJson, wideChars_wideBytes, String.ofList_toList]

/-- An app without access control, cache and audit log. -/
def openApp : Handlers.Config := ⟨wideJson, [], false, false, false⟩

/-- The moves of one command through a front end, as far as the answer. -/
def creation (c : Command) (front : Front) : List (Move (Command × Front) Answer App.Quiet) :=
  [.arrive (c, front), .go 0 .ok, .background (.store (.exec 0 .ok)),
    .background (.store (.exec 0 .ok)),
    .go 0 .ok, .go 0 .ok]

def started : State plainCodec := ⟨App.startedApp.env, [], []⟩

/-- A short message. -/
def short : Command := ⟨"", "a", "k", false⟩

theorem textSize_letter : Grpcserver.textSize "a" = 3 := by
  have size : "a".utf8ByteSize = 1 := rfl
  simp [Grpcserver.textSize, Grpcserver.varintSize, size]

theorem fits_short : short.Fits := by
  rw [Command.Fits, short, Grpcserver.requestSize, textSize_letter]
  decide

/-- The message a command creates in an empty store. -/
def first (text : String) : Message := ⟨1, text, checksum text, true, 0⟩

theorem utf8ByteSize_checksum (text : String) : (checksum text).utf8ByteSize ≤ 256 := by
  refine (utf8ByteSize_ofList_le _).trans ?_
  simp [Sha256.sum256, Sha256.Digest.words, Sha256.wordBytes]

/-- What a message takes besides its text. -/
theorem size_first (text : String) :
    (Grpcserver.toProto (first text)).size ≤ Grpcserver.textSize text + 300 := by
  have sum := Grpcserver.textSize_le (utf8ByteSize_checksum text) (by decide)
  have id := Grpcserver.numberSize_le (n := 1) (by decide)
  have time : (Grpcserver.timestamp 0).size = 0 := rfl
  have length := Grpcserver.varintSize_le (n := 0) (k := 0) (by decide)
  simp only [Grpcserver.Proto.size, Grpcserver.toProto, first, time, Bool.toNat_true]
  omega

theorem same_command_short :
    (trace (machine plainCodec openApp wideWire).step started (creation short .http)).length = 6 ∧
    List.Forall₂ Matching
      (trace (machine plainCodec openApp wideWire).step started (creation short .http))
      (trace (machine plainCodec openApp wideWire).step started (creation short .grpc)) := by
  have other : Reissued (short, .http) (short, .grpc) := ⟨rfl, fits_short⟩
  refine ⟨rfl, same_command ⟨rfl, rfl⟩ rfl ?_ ?_⟩
  · exact .cons (.arrive other) (.cons (.go _ _) (.cons (.background _) (.cons (.background _)
      (.cons (.go _ _) (.cons (.go _ _) .nil)))))
  · -- what the only `Create` has told its caller, state by state
    have told : (started :: trace (machine plainCodec openApp wideWire).step started
        (creation short .http)).map (fun t => t.env.db.calls.map Call.result) =
        [[], [], [none], [none], [some (.ok (first "a"))], [some (.ok (first "a"))],
          [some (.ok (first "a"))]] := rfl
    intro t mem c called m result
    have listed :=
      List.mem_map_of_mem (f := fun t : State plainCodec => t.env.db.calls.map Call.result) mem
    rw [told] at listed
    have one : m = first "a" := by
      have here : some (.ok m) ∈ t.env.db.calls.map Call.result :=
        List.mem_map.mpr ⟨c, called, result⟩
      generalize t.env.db.calls.map Call.result = results at listed here
      simp only [List.mem_cons, List.not_mem_nil, or_false] at listed
      rcases listed with rfl | rfl | rfl | rfl | rfl | rfl | rfl <;>
        simp only [List.mem_cons, List.not_mem_nil, or_false, Option.some.injEq, Except.ok.injEq,
          reduceCtorEq] at here
      all_goals exact here
    rw [one]
    have := size_first "a"
    rw [textSize_letter] at this
    rw [Grpcserver.maxReceiveMessageSize]
    omega

/-! ## What the gRPC server refuses -/

/-- Over HTTP a command whose text is not blank opens a `Create`, and its success is answered
201. -/
theorem issue_http {c : Command} (filled : ¬ Blank c.text) :
    ∃ k : Except Err Message → Handler Response, issue openApp wideWire (c, .http) =
        .call (.submit c.text c.key) (fun call => .call (.await call) k) ∧
      ∀ msg, k (.ok msg) = .call .count fun _ =>
        .ret (Handlers.writeJSON 201 (wideJson.message msg)) := by
  have valid : validateText c.text = .ok () := if_neg filled
  have decodes : wideJson.text (c.request wideWire).body = some c.text := wideWire.decodes c.text
  have key : (c.request wideWire).header.get "Idempotency-Key" = c.key := Header.get_set ..
  simp only [issue, Handlers.postMessages, Handlers.authorized, Security.authorize, openApp,
    Bool.false_eq_true, if_false, Handlers.limited, Handlers.createMessage, decodes, valid, key,
    create_of_not_blank _ filled]
  exact ⟨fun result => .ret result >>= _, rfl, fun msg => rfl⟩

/-- Over gRPC a command that does not fit is refused. -/
theorem issue_refused {c : Command} (large : ¬ c.Fits) : issue cfg wire (c, .grpc) =
    .ret (Gateway.writeGRPCError cfg.json
      (Grpcserver.tooLarge (Grpcserver.requestSize c.text))) := by
  have decodes : cfg.json.text (c.request wire).body = some c.text := wire.decodes c.text
  simp only [issue, Gateway.grpcCreate, decodes, Grpcserver.receiveCreate,
    if_pos (Nat.not_le.mp large)]
  rfl

/-- Over gRPC a command whose reply does not fit is carried out, and answered with an error. -/
theorem reply_refused {c : Command} (fits : c.Fits) (filled : ¬ Blank c.text)
    (allowed : Security.authorize cfg.authEnabled c.valid c.authorization = none) :
    ∃ k : Except Err Message → Handler Response, issue cfg wire (c, .grpc) =
        .call (.submit c.text c.key) (fun call => .call (.await call) k) ∧
      ∀ m, Grpcserver.maxReceiveMessageSize < (Grpcserver.toProto m).size →
        k (.ok m) = .call .count fun _ =>
          .ret (Gateway.writeGRPCError cfg.json
            (Grpcserver.tooLarge (Grpcserver.toProto m).size)) := by
  have decodes : cfg.json.text (c.request wire).body = some c.text := wire.decodes c.text
  have token : (Gateway.withAuth (c.request wire).header).get "authorization" =
      c.authorization := by
    rw [Gateway.get_authorization_withAuth, Command.request, Header.get_set_ne _ _ (by decide),
      Header.get_set]
  have key : (Gateway.withAuth (c.request wire).header).get "idempotency-key" = c.key := by
    rw [Gateway.get_key_withAuth, Command.request, Header.get_set]
  simp only [issue, Gateway.grpcCreate, decodes, Grpcserver.receiveCreate,
    if_neg (Nat.not_lt.mpr fits),
    Grpcserver.unaryCreate, Grpcserver.checkAuth, token, allowed, Option.map_none,
    Grpcserver.createMessage,
    if_neg filled, key, create_of_not_blank _ filled]
  refine ⟨fun result => ((.ret result >>= _) >>= _) >>= _, rfl, fun m large => ?_⟩
  have refused : Gateway.received (.ok (Grpcserver.toProto m)) =
      .error (Grpcserver.tooLarge (Grpcserver.toProto m).size) := if_pos large
  exact congrArg (fun outcome => Prog.call Effect.count fun _ =>
    .ret (Gateway.writeOutcome cfg.json outcome)) refused

/-- A command without a token. -/
def keyed (text : String) : Command := ⟨"", text, "k", false⟩

/-- The row of its message. -/
def firstRow (text : String) : MessageRow := ⟨1, text, checksum text, some "k", 0⟩

/-- The `Create` that has stored it. -/
def stored (text : String) : Call MessageCreated :=
  ⟨text, "k", [], 0, .finished (.ok (first text)), none, [], some (firstRow text)⟩

/-- The environment while it is carried out. -/
def carrying (text : String) (messages : List MessageRow) (seq : Nat) (call : Call MessageCreated) :
    App.Env plainCodec :=
  ⟨⟨⟨messages, [], seq⟩, 0, [call], [], []⟩, 0, [], 0, [],
    [(0, origin wideWire (keyed text, .http))]⟩

/-- The statements of a `Create` in an empty store. -/
theorem carried {text : String} (filled : ¬ Blank text) (rest : Handler Response) :
    System.replay (machine plainCodec openApp wideWire).step
        ⟨carrying text [] 0 (Call.start text "k" [] 0 true), [((keyed text, .http), rest)], []⟩
        [.background (.store (.exec 0 .ok)), .background (.store (.exec 0 .ok))] =
      some ⟨carrying text [firstRow text] 1 (stored text), [((keyed text, .http), rest)], []⟩ := by
  have begun : Call.start text "k" [] 0 true =
      (⟨text, "k", [], 0, .inserting, none, [], none⟩ : Call MessageCreated) := by
    simp only [Call.start, validateText, if_neg filled]
    rfl
  rw [begun]
  rfl

/-- Over HTTP a command whose text is not blank is carried out. -/
theorem creates {text : String} (filled : ¬ Blank text) :
    ∃ w, System.replay (machine plainCodec openApp wideWire).step started
      (creation (keyed text) .http) =
        some w ∧
      w.Idle ∧ w.answered.map (fun a => a.2.1.status) = [201] ∧
      w.env.db.tables.messages.length = 1 := by
  obtain ⟨k, program, success⟩ := issue_http (c := keyed text) filled
  have opens : System.replay (machine plainCodec openApp wideWire).step started
      [.arrive (keyed text, .http), .go 0 .ok] =
        some ⟨carrying text [] 0 (Call.start text "k" [] 0 true),
          [((keyed text, .http), .call (.await 0) k)], []⟩ := by
    simp only [System.replay, Machine.step, machine, program]
    rfl
  have told : (machine plainCodec openApp wideWire).step
      ⟨carrying text [firstRow text] 1 (stored text),
        [((keyed text, .http), .call (.await 0) k)], []⟩
        (.go 0 .ok) =
      some ⟨carrying text [firstRow text] 1 (stored text),
        [((keyed text, .http), k (.ok (first text)))],
        Pool.note (keyed text, .http) (k (.ok (first text)))
          (carrying text [firstRow text] 1 (stored text)) ++ []⟩ := rfl
  have answers : ∃ w, System.replay (machine plainCodec openApp wideWire).step
      ⟨carrying text [firstRow text] 1 (stored text),
        [((keyed text, .http), .call (.await 0) k)], []⟩
        [.go 0 .ok, .go 0 .ok] = some w ∧
      w.procs.all (fun p => Pool.returned p.2) = true ∧
      w.answered.map (fun a => a.2.1.status) = [201] ∧ w.env.db.tables.messages.length = 1 := by
    rw [System.replay, told, success]
    exact ⟨_, rfl, rfl, rfl, rfl⟩
  obtain ⟨w, answered, done, status, stored⟩ := answers
  refine ⟨w, ?_, Pool.idle_of_returned done, status, stored⟩
  have moves : creation (keyed text) .http = [.arrive (keyed text, .http), .go 0 .ok] ++
      ([.background (.store (.exec 0 .ok)), .background (.store (.exec 0 .ok))] ++
        [.go 0 .ok, .go 0 .ok]) := rfl
  rw [moves, System.replay_append, opens, Option.bind_some, System.replay_append, carried filled,
    Option.bind_some, answered]

/-- Over gRPC nothing comes of a command that does not fit. -/
theorem refuses {c : Command} (large : ¬ c.Fits) :
    ∃ w, System.replay (machine plainCodec openApp wideWire).step started
      [.arrive (c, .grpc)] = some w ∧
      w.Idle ∧ w.answered.map (fun a => a.2.1.status) = [502] ∧ w.env.db.tables.messages = [] := by
  have program : issue openApp wideWire (c, .grpc) = .ret (Gateway.writeGRPCError wideJson
      (Grpcserver.tooLarge (Grpcserver.requestSize c.text))) := issue_refused large
  have replayed : ∃ w, System.replay (machine plainCodec openApp wideWire).step started
      [.arrive (c, .grpc)] = some w ∧
      w.procs.all (fun p => Pool.returned p.2) = true ∧
      w.answered.map (fun a => a.2.1.status) = [502] ∧ w.env.db.tables.messages = [] := by
    simp only [System.replay, Machine.step, machine, program]
    exact ⟨_, rfl, rfl, rfl, rfl⟩
  obtain ⟨w, run, done, status, none⟩ := replayed
  exact ⟨w, run, Pool.idle_of_returned done, status, none⟩

theorem not_blank_replicate {n : Nat} (h : n ≠ 0) :
    ¬ Blank (String.ofList (List.replicate n 'a')) := by
  have solid : ∀ c ∈ (String.ofList (List.replicate n 'a')).toList, isSpace c = false := by
    intro c mem
    rw [String.toList_ofList] at mem
    rw [List.eq_of_mem_replicate mem]
    rfl
  rw [Blank, trimSpace_eq_self solid]
  exact Grpcserver.replicate_ne_empty h

theorem not_fits_replicate {n : Nat} (h : Grpcserver.maxReceiveMessageSize ≤ n) :
    ¬ (keyed (String.ofList (List.replicate n 'a'))).Fits := by
  have some : n ≠ 0 := by
    rw [Grpcserver.maxReceiveMessageSize] at h
    omega
  rw [Command.Fits, keyed, Grpcserver.requestSize, Grpcserver.textSize_replicate some]
  omega

/-- **A message the gRPC server refuses.** A text of 4 MiB is stored over HTTP, and answered 201;
over gRPC it is refused, and the gateway answers 502. -/
theorem long_refused :
    ∃ c w w', System.replay (machine plainCodec openApp wideWire).step started
      (creation c .http) = some w ∧
      w.Idle ∧ w.answered.map (fun a => a.2.1.status) = [201] ∧
      w.env.db.tables.messages.length = 1 ∧
      System.replay (machine plainCodec openApp wideWire).step started
        [.arrive (c, .grpc)] = some w' ∧
      w'.Idle ∧ w'.answered.map (fun a => a.2.1.status) = [502] ∧
      w'.env.db.tables.messages = [] := by
  obtain ⟨w, run, idle, status, stored⟩ := creates (not_blank_replicate (n := 4194304) (by decide))
  obtain ⟨w', run', idle', status', none⟩ := refuses (not_fits_replicate (n := 4194304) (by decide))
  exact ⟨_, w, w', run, idle, status, stored, run', idle', status', none⟩

end OtusApp.Commands
