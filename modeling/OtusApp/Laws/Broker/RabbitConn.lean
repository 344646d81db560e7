import OtusApp.Broker.Rabbit
import OtusApp.Lib.Trace

/-!
# One connection to RabbitMQ

A socket is dialled only when the one before is closed, every call goes over the socket that is
open, and whoever returns for good has closed it: the dials that fail halfway, the connections that
break and those that the server refuses included. The closing of a socket is never armed for none,
and it is disarmed before the context it waits for is cancelled, so that no call of the package
closes a connection it is about to hand out. All of this is a protocol over the calls (`wiring`).
-/

namespace OtusApp.Broker.Rabbit

open Messaging Go Program
open Projection (Config)

variable {P : Type}

/-- The connection a call goes over. -/
def uses : Call P → Option Nat
  | .handshake n => some n
  | .channel n => some n
  | .queueDeclare n _ => some n
  | .confirm n => some n
  | .chClosed n => some n
  | .connClosed n => some n
  | .publish n _ _ _ => some n
  | .qos n _ => some n
  | .consume n _ => some n
  | .next n => some n
  | .ack n _ => some n
  | _ => none

/-- The socket that is open, and whether its closing is armed. -/
structure Line where
  socket : Option Nat
  armed : Bool
deriving DecidableEq

/-- Nothing is open. -/
def Line.idle : Line := ⟨none, false⟩

/-- The protocol of the client library. -/
def wire (m : Line) : (e : Call P) → Option (e.Result → Line)
  | .dial _ => if m = .idle then some fun socket => ⟨socket, false⟩ else none
  | .afterFunc socket =>
    if m.armed = false ∧ socket = m.socket ∧ socket ≠ none then some fun _ =>
      { m with armed := true } else none
  | .stop _ => some fun _ => { m with armed := false }
  | .cancel _ => if m.armed = false then some fun _ => m else none
  | .closeSocket n => if m.socket = some n then some fun _ => { m with socket := none } else none
  | .closeConn n => if m.socket = some n then some fun _ => { m with socket := none } else none
  | .waitContext _ => some fun _ => m
  | .handshake n => if m.socket = some n then some fun _ => m else none
  | .channel n => if m.socket = some n then some fun _ => m else none
  | .queueDeclare n _ => if m.socket = some n then some fun _ => m else none
  | .confirm n => if m.socket = some n then some fun _ => m else none
  | .chClosed n => if m.socket = some n then some fun _ => m else none
  | .connClosed n => if m.socket = some n then some fun _ => m else none
  | .publish n _ _ _ => if m.socket = some n then some fun _ => m else none
  | .qos n _ => if m.socket = some n then some fun _ => m else none
  | .consume n _ => if m.socket = some n then some fun _ => m else none
  | .next n => if m.socket = some n then some fun _ => m else none
  | .ack n _ => if m.socket = some n then some fun _ => m else none

/-- The protocol of a program: its other calls have nothing to do with connections. -/
def wiring : Protocol (Broker.Call (Call P)) (Broker.Call.Result Call.Result) Line := fun m e =>
  match e with
  | .client e => wire m e
  | _ => some fun _ => m

/-! ## The programs -/

/-- The fields go together, and the line is theirs. -/
structure Keeps (r : RabbitConn) (m : Line) : Prop where
  line : m = ⟨r.socket, false⟩
  conn : r.conn = r.socket
  ch : r.ch = r.socket

/-- From where the fields are, the program follows the protocol. -/
abbrev Wired {α : Type} (post : Line → α → Prop) (x : Code P α) (m : Line) : Prop :=
  x.Follows wiring post m

/-- A call over the open connection. -/
theorem wired_use {α : Type} {post : Line → α → Prop} {e : Call P} {k : e.Result → Code P α}
    {m : Line} {n : Nat} (is : wire m e = if m.socket = some n then some fun _ => m else none)
    (opened : m.socket = some n) (rest : ∀ r, Wired post (k r) m) : Wired post (call e >>= k) m :=
  ⟨fun _ => m, is.trans (if_pos opened), rest⟩

theorem wired_draw {α : Type} {post : Line → α → Prop} {k : Nat → Code P α} {m : Line}
    (rest : ∀ r, Wired post (k r) m) :
    Wired post ((.ask Broker.Call.draw : Code P Nat) >>= k) m :=
  ⟨_, rfl, rest⟩

/-- The end of a socket. -/
theorem wired_close {α : Type} {post : Line → α → Prop} {k : Unit → Code P α} {m : Line} {n : Nat}
    (opened : m.socket = some n) (rest : Wired post (k ()) { m with socket := none }) :
    Wired post (call (.closeSocket n) >>= k) m :=
  ⟨_, if_pos opened, fun _ => rest⟩

theorem declare_wired (socket : Nat) (queue : String) (confirm : Bool) {m : Line}
    (opened : m.socket = some socket) :
    Wired (P := P) (fun m' _ => m' = m) (declare socket queue confirm) m := by
  refine wired_use rfl opened fun (shaken : Bool) => ?_
  cases shaken with
  | false => rfl
  | true =>
    refine wired_use rfl opened fun (made : Bool) => ?_
    cases made with
    | false => rfl
    | true =>
      refine wired_use rfl opened fun (declared : Bool) => ?_
      cases declared with
      | false => rfl
      | true =>
        cases confirm with
        | false => rfl
        | true => exact ⟨fun _ => m, if_pos opened, fun _ => rfl⟩

/-- What is open after it is what it returns. -/
theorem openRabbitChannel_wired (url queue : String) (confirm : Bool) :
    Wired (P := P) (fun m opened => m = ⟨opened, false⟩)
      (openRabbitChannel url queue confirm) .idle := by
  refine ⟨_, rfl, fun (socket : Option Nat) => ?_⟩
  cases socket with
  | none => exact ⟨_, rfl, fun _ => rfl⟩
  | some socket =>
    refine ⟨_, if_pos ⟨rfl, rfl, nofun⟩, fun _ => ?_⟩
    refine (declare_wired socket queue confirm rfl).bind ?_
    rintro m ok rfl
    cases ok with
    | false => exact wired_close rfl ⟨_, rfl, fun _ => ⟨_, rfl, fun _ => rfl⟩⟩
    | true => exact ⟨_, rfl, fun _ => ⟨_, rfl, fun _ => rfl⟩⟩

theorem closeLocked_wired {r : RabbitConn} {m : Line} (h : Keeps r m) :
    Wired (P := P) (fun m' r' =>
      m' = .idle ∧ r' = { r with ch := none, conn := none, socket := none }) r.closeLocked m := by
  obtain ⟨rfl, conn, _⟩ := h
  rw [RabbitConn.closeLocked]
  cases closing : r.conn with
  | none => exact ⟨by rw [← conn, closing]; rfl, rfl⟩
  | some n => exact ⟨_, if_pos (conn.symm.trans closing), fun _ => ⟨rfl, rfl⟩⟩

theorem dialAny_wired {r : RabbitConn} (h : Keeps r .idle) (confirm : Bool) (urls : List String) :
    Wired (P := P) (fun m a => Keeps a.2 m ∧ a.1 = a.2.socket) (r.dialAny confirm urls) .idle := by
  induction urls with
  | nil => exact ⟨h, congrArg Line.socket h.line⟩
  | cons url urls ih =>
    refine (openRabbitChannel_wired url r.queue confirm).bind ?_
    rintro m opened rfl
    cases opened with
    | none => exact ih
    | some n => exact ⟨⟨rfl, rfl, rfl⟩, rfl⟩

theorem usable_wired {r : RabbitConn} {m : Line} (h : Keeps r m) :
    Wired (P := P) (fun m' _ => m' = m) r.usable m := by
  obtain ⟨rfl, conn, ch⟩ := h
  rw [RabbitConn.usable]
  cases opened : r.ch with
  | none => rfl
  | some n =>
    have socket : r.socket = some n := ch.symm.trans opened
    refine wired_use rfl socket fun (closed : Bool) => ?_
    cases closed with
    | true => rfl
    | false =>
      rw [conn, socket]
      exact wired_use rfl rfl fun _ => rfl

/-- The channel it returns is the one that is open. -/
theorem channel_wired {r : RabbitConn} {m : Line} (h : Keeps r m) (confirm : Bool) :
    Wired (P := P) (fun m a => Keeps a.2 m ∧ a.1 = a.2.socket) (r.channel confirm) m := by
  refine (usable_wired h).bind ?_
  rintro m usable rfl
  cases usable with
  | true => exact ⟨h, h.ch⟩
  | false =>
    refine (closeLocked_wired h).bind ?_
    rintro m r ⟨rfl, rfl⟩
    exact dialAny_wired ⟨rfl, rfl, rfl⟩ confirm _

theorem publishLoop_wired (messageId : String) (payload : P) (attempts : Nat) {r : RabbitConn}
    {m : Line} (h : Keeps r m) :
    Wired (fun m a => Keeps a.2 m) (publishLoop messageId payload attempts r) m := by
  induction attempts generalizing r m with
  | zero => exact h
  | succ attempts ih =>
    refine (channel_wired h true).bind ?_
    rintro m ⟨ch, r⟩ ⟨keeps, is⟩
    cases ch with
    | none => exact ih keeps
    | some ch =>
      obtain ⟨rfl, conn, same⟩ := keeps
      have socket : r.socket = some ch := is.symm
      refine ⟨_, if_pos ⟨rfl, rfl, by rw [socket]; exact nofun⟩, fun _ => ?_⟩
      refine wired_use rfl socket fun (conf : Option Nat) => ?_
      refine ⟨_, rfl, fun _ => ?_⟩
      cases conf with
      | some conf => exact ⟨_, rfl, fun _ => ⟨rfl, conn, same⟩⟩
      | none =>
        refine (closeLocked_wired ⟨rfl, conn, same⟩).bind ?_
        rintro m r ⟨rfl, rfl⟩
        exact ih ⟨rfl, rfl, rfl⟩

theorem publish_wired (codec : EventCodec) {r : RabbitConn} {m : Line} (h : Keeps r m)
    (ev : MessageCreated) :
    Wired (fun m a => Keeps a.2 m) (publish codec r ev) m := by
  rw [publish]
  split
  · exact h
  · exact publishLoop_wired _ _ 2 h

/-! ## The consumer -/

section

variable {codec : EventCodec} {handle : Handle (Call codec.Payload) Call.Result}

/-- The callback has nothing to do with connections. -/
def Aside (handle : Handle (Call codec.Payload) Call.Result) : Prop :=
  ∀ ev attempt m, Wired (fun m' _ => m' = m) (handle ev attempt) m

theorem deliveries_wired (h : Aside handle) {ch : Nat} {m : Line} (opened : m.socket = some ch)
    (turns attempt : Nat) :
    Wired (fun m' _ => m' = m) (deliveries codec handle ch turns attempt) m := by
  induction turns generalizing attempt with
  | zero => rfl
  | succ turns ih =>
    refine wired_use rfl opened fun (d : Option (Nat × codec.Payload)) => ?_
    cases d with
    | none => rfl
    | some d =>
      dsimp only
      split
      · rfl
      · next ev _ =>
        refine (h ev attempt m).bind ?_
        rintro _ ⟨ok, attempt⟩ rfl
        cases ok with
        | false => rfl
        | true =>
          refine wired_use rfl opened fun (acked : Bool) => ?_
          cases acked with
          | false => rfl
          | true => exact ih attempt

/-- What is left of the connection when `Consume` returns. -/
def Leaves (m : Line) (left : Option (RabbitConn × Nat)) : Prop :=
  ∀ r attempt, left = some (r, attempt) → Keeps r m

theorem consume_wired (h : Aside handle) (prefetch : Int) (turns attempt : Nat) {r : RabbitConn}
    {m : Line} (keeps : Keeps r m) :
    Wired Leaves (consume codec prefetch handle turns r attempt) m := by
  induction turns generalizing r m attempt with
  | zero => nofun
  | succ turns ih =>
    -- after a reset, whether it sleeps or not
    have again :
        ∀ {r : RabbitConn} {m : Line} (k : RabbitConn →
          Code codec.Payload (Option (RabbitConn × Nat))),
          Keeps r m → (∀ r, Keeps r .idle → Wired Leaves (k r) .idle) →
          Wired Leaves (r.closeLocked >>= k) m := by
      intro r m k keeps rest
      refine (closeLocked_wired keeps).bind ?_
      rintro _ _ ⟨rfl, rfl⟩
      exact rest _ ⟨rfl, rfl, rfl⟩
    refine ⟨_, rfl, fun (on : Bool) => ?_⟩
    cases on with
    | false =>
      rintro _ _ ⟨⟩
      exact keeps
    | true =>
      refine (channel_wired keeps false).bind ?_
      rintro m ⟨ch, r⟩ ⟨keeps, is⟩
      cases ch with
      | none => exact ⟨_, rfl, fun _ => ih attempt keeps⟩
      | some ch =>
        have opened : m.socket = some ch := by rw [keeps.line]; exact is.symm
        refine wired_use rfl opened fun (limited : Bool) => ?_
        cases limited with
        | false => exact again _ keeps fun r idle => ih attempt idle
        | true =>
          refine wired_use rfl opened fun (started : Bool) => ?_
          cases started with
          | false => exact again _ keeps fun r idle => ⟨_, rfl, fun _ => ih attempt idle⟩
          | true =>
            refine (deliveries_wired h opened turns attempt).bind ?_
            rintro _ ⟨passed, attempt⟩ rfl
            cases passed with
            | unfinished => nofun
            | returned =>
              rintro _ _ ⟨⟩
              exact keeps
            | interrupted =>
              refine ⟨_, rfl, fun (on : Bool) => ?_⟩
              cases on with
              | false => exact ih attempt keeps
              | true => exact again _ keeps fun r idle => ⟨_, rfl, fun _ => ih attempt idle⟩

/-- A program that makes no call of the client library. -/
theorem wired_aside {α : Type} {x : Code P α} (h : x.All fun e => ∀ e', e ≠ .client e') (m : Line) :
    Wired (fun m' _ => m' = m) x m := by
  induction x with
  | ret a => rfl
  | call e k ih =>
    refine ⟨fun _ => m, ?_, fun r => ih r (h.2 r)⟩
    cases e with
    | client e => exact absurd rfl (h.1 e)
    | err | sleep | draw | wait | write => rfl

theorem counting_aside (c : Config) :
    Aside (counting c : Handle (Call codec.Payload) Call.Result) := by
  intro ev attempt m
  refine wired_aside ?_ m
  refine Prog.all_bind ?_ fun ok => ?_
  · exact Prog.all_lift (Prog.all_of_forall (fun _ => nofun) _)
  · trivial

theorem newRabbitConsumer_keeps {cfg : Settings} {r : RabbitConn}
    (h : newRabbitConsumer cfg = some r) : Keeps r .idle := by
  obtain ⟨_, same⟩ := Option.ite_none_left_eq_some.mp h
  cases same
  exact ⟨rfl, rfl, rfl⟩

theorem close_wired (cfg : Settings) {r : RabbitConn} {m : Line} (keeps : Keeps r m) :
    Wired (fun m _ => m = .idle) ((rabbit codec cfg).close r) m :=
  (closeLocked_wired keeps).bind fun _ _ is => is.1

/-- Whatever became of it, a consumer that is closed has left no connection. -/
theorem session_wired (cfg : Settings) (c : Config) (turns attempt : Nat) :
    Wired (fun m left => left ≠ none → m = .idle)
      (session (rabbit codec cfg) c turns attempt) .idle := by
  have made : Wired (fun m made => m = .idle ∧ ∀ r, made = some r → Keeps r .idle)
    (rabbit codec cfg).newConsumer .idle :=
    ⟨rfl, fun _ => newRabbitConsumer_keeps⟩
  refine made.bind ?_
  rintro _ made ⟨rfl, keeps⟩
  cases made with
  | none => exact fun _ => rfl
  | some r =>
    refine (consume_wired (counting_aside c) cfg.prefetch turns attempt (keeps r rfl)).bind ?_
    intro m left leaves
    cases left with
    | none => exact fun unfinished => absurd rfl unfinished
    | some left =>
      exact (close_wired cfg (leaves left.1 left.2 rfl)).bind fun _ _ is _ => is

theorem pause_wired (attempt source : Nat) (m : Line) :
    Wired (P := P) (fun m' _ => m' = m) (pause attempt source) m := by
  refine wired_aside ?_ m
  rw [pause]
  split
  · trivial
  · exact ⟨nofun, fun _ => trivial⟩

theorem supervise_wired (cfg : Settings) (c : Config) (turns attempt : Nat) :
    Wired (fun m returned => returned = true → m = .idle)
      (supervise (rabbit codec cfg) c turns attempt) .idle := by
  induction turns generalizing attempt with
  | zero => exact nofun
  | succ turns ih =>
    refine ⟨_, rfl, fun (on : Bool) => ?_⟩
    cases on with
    | false => exact fun _ => rfl
    | true =>
      refine (session_wired cfg c turns attempt).bind fun m left idle => ?_
      cases left with
      | none => exact nofun
      | some attempt =>
        obtain rfl := idle nofun
        refine ⟨_, rfl, fun (on : Bool) => ?_⟩
        cases on with
        | false => exact fun _ => rfl
        | true =>
          refine wired_draw fun source => (pause_wired (attempt + 1) source .idle).bind ?_
          rintro _ on rfl
          cases on with
          | false => exact fun _ => rfl
          | true => exact ih (attempt + 1)

end

/-! ## Its traces -/

/-- A call with its answer. -/
abbrev Step (P : Type) := (e : Broker.Call (Call P)) × e.Result Call.Result

/-- The socket a call opened. -/
def dials : Step P → Option Nat
  | ⟨.client (.dial _), socket⟩ => socket
  | _ => none

/-- The socket a call closed. -/
def closes : Step P → Option Nat
  | ⟨.client (.closeSocket n), _⟩ => some n
  | ⟨.client (.closeConn n), _⟩ => some n
  | _ => none

/-- Whether the closing of the socket is armed after a call. -/
def arms (armed : Bool) : Step P → Bool
  | ⟨.client (.afterFunc _), _⟩ => true
  | ⟨.client (.stop _), _⟩ => false
  | _ => armed

/-- The sockets that were opened, in order. -/
def dialled (trace : List (Step P)) : List Nat := trace.filterMap dials

/-- The sockets that were closed, in order. -/
def released (trace : List (Step P)) : List Nat := trace.filterMap closes

/-- Whether the closing of a socket is armed. -/
def armed (trace : List (Step P)) : Bool := trace.foldl arms false

/-- What one call does to the line. -/
theorem wiring_step {m : Line} {e : Broker.Call (Call P)} {onward : e.Result Call.Result → Line}
    (admitted : wiring m e = some onward) (r : e.Result Call.Result) :
    m.socket.toList ++ (dials ⟨e, r⟩).toList = (closes ⟨e, r⟩).toList ++ (onward r).socket.toList ∧
      (onward r).armed = arms m.armed ⟨e, r⟩ := by
  cases e with
  | client e =>
    cases e with
    | dial url =>
      obtain ⟨rfl, same⟩ := Option.ite_none_right_eq_some.mp admitted
      cases same
      exact ⟨rfl, rfl⟩
    | closeSocket n | closeConn n =>
      obtain ⟨opened, same⟩ := Option.ite_none_right_eq_some.mp admitted
      cases same
      exact ⟨by rw [opened]; rfl, rfl⟩
    | afterFunc | cancel =>
      obtain ⟨_, same⟩ := Option.ite_none_right_eq_some.mp admitted
      cases same
      exact ⟨List.append_nil _, rfl⟩
    | stop | waitContext =>
      cases admitted
      exact ⟨List.append_nil _, rfl⟩
    | _ =>
      obtain ⟨_, same⟩ := Option.ite_none_right_eq_some.mp admitted
      cases same
      exact ⟨List.append_nil _, rfl⟩
  | err | sleep | draw | wait | write =>
    cases admitted
    exact ⟨List.append_nil _, rfl⟩

/-- What a trace does to the line. -/
theorem wiring_walk {m m' : Line} {trace : List (Step P)} (h : walk wiring m trace = some m') :
    m.socket.toList ++ dialled trace = released trace ++ m'.socket.toList ∧
    m'.armed = trace.foldl arms m.armed := by
  induction trace generalizing m with
  | nil =>
    cases h
    exact ⟨List.append_nil _, rfl⟩
  | cons step trace ih =>
    obtain ⟨e, r⟩ := step
    obtain ⟨onward, admitted, rest⟩ := walk_cons h
    obtain ⟨sockets, arming⟩ := wiring_step admitted r
    obtain ⟨later, armed⟩ := ih rest
    constructor
    · rw [dialled, released, Rows.filterMap_cons_toList,
        Rows.filterMap_cons_toList, ← List.append_assoc, sockets,
        List.append_assoc, List.append_assoc]
      exact congrArg _ later
    · rw [armed, arming]
      rfl

/-- A socket is dialled when none is open, at most one is open, every call goes over the one that
is, and its closing is armed for it and not armed any more when the context of the dial is
cancelled. -/
structure Tidy (trace : List (Step P)) : Prop where
  one : ∃ socket : Option Nat, dialled trace = released trace ++ socket.toList
  dial : ∀ before url r after, trace = before ++ ⟨.client (.dial url), r⟩ :: after →
    dialled before = released before
  use : ∀ before e r after n, trace = before ++ ⟨.client e, r⟩ :: after → uses e = some n →
    dialled before = released before ++ [n]
  arm : ∀ before socket r after, trace = before ++ ⟨.client (.afterFunc socket), r⟩ :: after →
    ∃ n, socket = some n ∧ dialled before = released before ++ [n]
  cancel : ∀ before socket r after, trace = before ++ ⟨.client (.cancel socket), r⟩ :: after →
    armed before = false

/-- A call is admitted over the open connection only. -/
theorem wire_uses {m : Line} {e : Call P} {onward : e.Result → Line}
    (admitted : wire m e = some onward) {n : Nat} (used : uses e = some n) : m.socket = some n := by
  cases e with
  | dial | afterFunc | stop | cancel | closeSocket | closeConn | waitContext => cases used
  | _ =>
    cases used
    exact (Option.ite_none_right_eq_some.mp admitted).1

theorem tidy_of_walk {trace : List (Step P)} {m : Line} (h : walk wiring .idle trace = some m) :
    Tidy trace := by
  have open_ : ∀ {before : List (Step P)} {mode : Line}, walk wiring .idle before = some mode →
      dialled before = released before ++
        mode.socket.toList := fun reached => (wiring_walk reached).1
  refine ⟨⟨m.socket, open_ h⟩, ?_, ?_, ?_, ?_⟩
  · rintro before url r after rfl
    obtain ⟨mode, onward, reached, admitted, _⟩ := walk_split h
    obtain ⟨rfl, _⟩ := Option.ite_none_right_eq_some.mp admitted
    exact (open_ reached).trans (List.append_nil _)
  · rintro before e r after n rfl used
    obtain ⟨mode, onward, reached, admitted, _⟩ := walk_split h
    rw [open_ reached, wire_uses admitted used]
    rfl
  · rintro before socket r after rfl
    obtain ⟨mode, onward, reached, admitted, _⟩ := walk_split h
    obtain ⟨⟨_, same, isSome⟩, _⟩ := Option.ite_none_right_eq_some.mp admitted
    obtain ⟨n, is⟩ := Option.ne_none_iff_exists'.mp isSome
    refine ⟨n, is, ?_⟩
    rw [open_ reached, ← same, is]
    rfl
  · rintro before socket r after rfl
    obtain ⟨mode, onward, reached, admitted, _⟩ := walk_split h
    obtain ⟨disarmed, _⟩ := Option.ite_none_right_eq_some.mp admitted
    exact (wiring_walk reached).2.symm.trans disarmed

/-- **One connection.** However its calls end, a supervised consumer of RabbitMQ is tidy at any time
of its run, and when `supervise` has returned every socket it ever opened is closed. -/
theorem supervise_tidy {codec : EventCodec} {cfg : Settings} {c : Config} {turns : Nat}
    {outcomes : List ((e : Broker.Call (Call codec.Payload)) → e.Result Call.Result)}
    {rest : Code codec.Payload Bool} {trace : List (Step codec.Payload)}
    (runs : (supervise (rabbit codec cfg) c turns 0).after Prog.record [] outcomes = some
      (rest, trace)) :
    Tidy trace ∧ (rest = .ret true → dialled trace = released trace) := by
  obtain ⟨m, reached, follows⟩ := (supervise_wired cfg c turns 0).recorded runs
  refine ⟨tidy_of_walk reached, ?_⟩
  rintro rfl
  obtain rfl := follows rfl
  exact (wiring_walk reached).1.trans (List.append_nil _)

/-- Every call ends alike, and a dial opens the socket 5. -/
def alike (ok : Bool) : (e : Broker.Call (Call P)) → e.Result Call.Result
  | .err => ok
  | .sleep _ => ()
  | .draw => (0 : Nat)
  | .wait _ => ok
  | .write _ => ok
  | .client (.dial _) => some 5
  | .client (.handshake _) => ok
  | .client (.channel _) => ok
  | .client (.queueDeclare _ _) => ok
  | .client (.confirm _) => ok
  | .client (.afterFunc _) => ()
  | .client (.stop _) => ()
  | .client (.cancel _) => ()
  | .client (.closeSocket _) => ()
  | .client (.closeConn _) => ()
  | .client (.chClosed _) => ok
  | .client (.connClosed _) => ok
  | .client (.publish ..) => none
  | .client (.waitContext _) => none
  | .client (.qos _ _) => ok
  | .client (.consume _ _) => ok
  | .client (.next _) => none
  | .client (.ack _ _) => ok

/-- A consumer of one node. -/
def oneConsumer : Code plainCodec.Payload Bool :=
  supervise (rabbit plainCodec ⟨["amqp://rabbit-1"], "otus.messages", 32⟩)
    ⟨"rabbitmq", true, false, .inl rfl⟩ 3 0

/-- The channel cannot be opened, and the context is cancelled while the consumer sleeps. -/
def refused : List ((e : Broker.Call (Call plainCodec.Payload)) → e.Result Call.Result) :=
  [alike true, alike true, alike true, alike true, alike true, alike false, alike true,
    alike true, alike true,
    alike true, alike false, alike false]

theorem supervise_tidy_refused :
    ∃ trace, oneConsumer.after Prog.record [] refused = some (.ret true, trace) ∧
    dialled trace = [5] ∧ dialled trace = released trace := by
  have runs : ∃ trace, oneConsumer.after Prog.record [] refused = some (.ret true, trace) ∧
    dialled trace = [5] :=
    ⟨_, rfl, rfl⟩
  obtain ⟨trace, run, socket⟩ := runs
  exact ⟨trace, run, socket, (supervise_tidy run).2 rfl⟩

end OtusApp.Broker.Rabbit
