import OtusApp.Gateway.Listing

/-!
# What a list over a stream shows

However the steps of the gateway, the service and the network fall, the answer has a beginning of
what the store answered at one moment, a line for each message (`list_beginning`). It has all of it
where the gateway has seen the end of the stream; an answer that stops short has the same status and
the same header.
-/

namespace OtusApp.Gateway.Listing

open Go Messaging Grpcserver Transition Duplex

variable {cfg : Config} {s t : Session} {shown : List Message}

/-- The lines of messages. -/
def lines (json : Handlers.Json) (msgs : List Message) : Bytes := msgs.flatMap (line json)

theorem lines_concat (json : Handlers.Json) (msgs : List Message) (m : Message) :
    lines json (msgs ++ [m]) = lines json msgs ++ line json m := by
  simp [lines]

/-- What the gateway has written, and how it has ended. -/
def Written (cfg : Config) (shown : List Message) (ended : Option (Option Status)) : Client → Prop
  | .opening => ended = none
  | .receiving body => ended = none ∧ body = lines cfg.json shown
  | .answered r => (ended = none ∧ ∃ status, r = writeGRPCError cfg.json status) ∨
      (ended ≠ none ∧ r = ⟨200, ndjson, lines cfg.json shown⟩)

/-- What the service has left to send, of what the store answered. -/
def Sends (listed : Option (List Message)) (sent : List Message) : Service → Prop
  | .idle | .accepting | .called => listed = none ∧ sent = []
  | .listing limit => limit = 0 ∧ listed = none ∧ sent = []
  | .sending rest => listed = some (sent ++ rest)
  | .returned none => listed = some sent
  | .returned (some _) => sent <+: listed.getD []

/-- The messages shown, those on their way and those left to send are what the store answered. -/
structure Shows (cfg : Config) (s : Session) (shown : List Message) : Prop where
  written : Written cfg shown s.ended s.client
  sends : Sends s.listed (shown ++ s.stream.down.map fromProto) s.service
  request : ∀ limit ∈ s.stream.up, limit = 0
  fresh : s.client = .opening → s.service = .idle
  unopened : ∀ r, s.client = .answered r → s.ended = none → s.service = .idle
  returned : ∀ err, s.stream.ended = some err → s.service = .returned err
  seen : s.ended = some none → s.service = .returned none ∧ s.stream.down = []

theorem requested_shows (cfg : Config) : Shows cfg requested [] := by
  constructor <;> simp [requested, Written, Sends, Stream.empty]

/-! ## The gateway -/

theorem open_shows {err : Option Status} (h : Shows cfg s shown) (step : open_ cfg s err = some t) :
    Shows cfg t shown := by
  have written := h.written
  have sends := h.sends
  unfold open_ at step
  split at step
  · next status stage =>
    cases step
    rw [stage] at written
    exact { h with
      written := .inl ⟨written, status, rfl⟩
      fresh := nofun
      unopened := fun _ _ _ => h.fresh stage }
  · next stage =>
    cases step
    rw [stage] at written
    rw [h.fresh stage] at sends
    obtain ⟨none, nothing⟩ := sends
    have noEnd : s.ended = Option.none := written
    obtain ⟨shownNil, downNil⟩ := List.append_eq_nil_iff.mp nothing
    have lasts : ∀ err, s.stream.ended ≠ some err := by
      intro err ended
      have was := h.returned err ended
      rw [h.fresh stage] at was
      cases was
    have same : ((s.stream.send 0).close).down = s.stream.down ∧
        ((s.stream.send 0).close).ended = s.stream.ended := by
      unfold Stream.send
      split <;> exact ⟨rfl, rfl⟩
    constructor
    · exact ⟨noEnd, by simp [lines, shownNil]⟩
    · refine ⟨none, ?_⟩
      rw [same.1]
      exact nothing
    · intro limit mem
      unfold Stream.send at mem
      split at mem
      · exact h.request limit mem
      · rcases List.mem_append.mp mem with old | new
        · exact h.request limit old
        · exact List.mem_singleton.mp new
    · nofun
    · nofun
    · intro err ended
      rw [same.2] at ended
      exact absurd ended (lasts err)
    · intro seen
      rw [show s.ended = some Option.none from seen] at noEnd
      cases noEnd
  · cases step

theorem recv_shows {early : Bool} (h : Shows cfg s shown) (step : recv cfg s early = some t) :
    ∃ shown', Shows cfg t shown' := by
  have written := h.written
  unfold recv at step
  split at step
  · next body stage =>
    obtain ⟨⟨got, stream⟩, received, rfl⟩ := Option.map_eq_some_iff.mp step
    rw [stage] at written
    obtain ⟨noEnd, rfl⟩ := written
    cases Stream.receives received with
    | message msg rest next =>
      refine ⟨shown ++ [fromProto msg], { h with
        written := ⟨noEnd, (lines_concat _ _ _).symm⟩
        sends := ?_
        fresh := nofun
        unopened := nofun
        seen := ?_ }⟩
      · have sends := h.sends
        rw [next] at sends
        simpa using sends
      · intro seen
        rw [show s.ended = some none from seen] at noEnd
        cases noEnd
    | eof empty ended =>
      have finished := h.returned none ended
      exact ⟨shown, { h with
        written := .inr ⟨nofun, rfl⟩
        fresh := nofun
        unopened := nofun
        seen := fun _ => ⟨finished, empty⟩ }⟩
    | error status lost =>
      exact ⟨shown, { h with
        written := .inr ⟨nofun, rfl⟩
        fresh := nofun
        unopened := nofun
        seen := nofun }⟩
  · cases step

/-! ## The service -/

/-- The service takes a step before its result: the gateway has seen no end. -/
theorem Shows.serve (h : Shows cfg s shown) (running : ∀ err, s.service ≠ .returned err)
    {t : Session} (client : t.client = s.client) (ended : t.ended = s.ended)
    (streamEnded : t.stream.ended = s.stream.ended) (up : ∀ limit ∈ t.stream.up, limit = 0)
    (started : s.service ≠ .idle)
    (sends : Sends t.listed (shown ++ t.stream.down.map fromProto) t.service) :
    Shows cfg t shown := by
  constructor
  · rw [client, ended]
    exact h.written
  · exact sends
  · exact up
  · intro opening
    rw [client] at opening
    exact absurd (h.fresh opening) started
  · intro r answered none
    rw [client] at answered
    rw [ended] at none
    exact absurd (h.unopened r answered none) started
  · intro err is
    rw [streamEnded] at is
    exact absurd (h.returned err is) (running err)
  · intro seen
    rw [ended] at seen
    exact absurd (h.seen seen).1 (running none)

theorem accept_shows {valid : Bool} {md : Header} (h : Shows cfg s shown)
    (step : accept cfg valid md s = some t) :
    Shows cfg t shown := by
  have sends := h.sends
  unfold accept at step
  split at step
  · next stage =>
    rw [stage] at sends
    obtain ⟨none, nothing⟩ := sends
    split at step
    · cases step
      refine h.serve (by simp [stage]) rfl rfl rfl h.request (by simp [stage]) ?_
      simp [Sends, nothing]
    · cases step
      exact h.serve (by simp [stage]) rfl rfl rfl h.request (by simp [stage]) ⟨none, nothing⟩
  · cases step

theorem take_shows (h : Shows cfg s shown) (step : take s = some t) : Shows cfg t shown := by
  have sends := h.sends
  unfold take at step
  split at step
  · next limit stream stage got =>
    cases step
    rw [stage] at sends
    rcases Stream.taken got with ⟨limit', rest, up, same, rfl⟩ | ⟨_, _, nothing, _⟩
    · cases same
      have zero : limit = 0 := h.request limit (by simp [up])
      refine h.serve (by simp [stage]) rfl rfl rfl ?_ (by simp [stage]) ⟨zero, sends⟩
      intro other mem
      exact h.request other (by simp [up, mem])
    · cases nothing
  · cases step

theorem takeError_shows {status : Status} (h : Shows cfg s shown)
    (step : takeError s status = some t) : Shows cfg t shown := by
  have sends := h.sends
  unfold takeError at step
  split at step
  · next stage =>
    cases step
    rw [stage] at sends
    refine h.serve (by simp [stage]) rfl rfl rfl h.request (by simp [stage]) ?_
    simp [Sends, sends.2]
  · cases step

theorem list_shows {msgs : Option (List Message)} (h : Shows cfg s shown)
    (step : list s msgs = some t) : Shows cfg t shown := by
  have sends := h.sends
  unfold list at step
  split at step
  · next stage =>
    cases step
    rw [stage] at sends
    refine h.serve (by simp [stage]) rfl rfl rfl h.request (by simp [stage]) ?_
    simp [Sends, sends.2.2]
  · next limit msgs stage =>
    cases step
    rw [stage] at sends
    obtain ⟨rfl, _, nothing⟩ := sends
    refine h.serve (by simp [stage]) rfl rfl rfl h.request (by simp [stage]) ?_
    simp [Sends, nothing, upTo]
  · cases step

theorem send_shows {err : Option Status} (h : Shows cfg s shown) (step : send s err = some t) :
    Shows cfg t shown := by
  have sends := h.sends
  unfold send at step
  split at step
  · next stage =>
    cases step
    rw [stage] at sends
    refine h.serve (by simp [stage]) rfl rfl rfl h.request (by simp [stage]) ?_
    simpa [Sends] using sends
  · next m rest stage =>
    cases step
    rw [stage] at sends
    refine h.serve (by simp [stage]) rfl rfl rfl h.request (by simp [stage]) ?_
    simpa [Sends, Stream.put, fromProto_toProto] using sends
  · next m rest status stage =>
    cases step
    rw [stage] at sends
    refine h.serve (by simp [stage]) rfl rfl rfl h.request (by simp [stage]) ?_
    have listed : s.listed = some (shown ++ s.stream.down.map fromProto ++ m :: rest) := sends
    simp [Sends, listed]
  · cases step

/-! ## The network -/

theorem deliver_shows (h : Shows cfg s shown) (step : deliver s = some t) : Shows cfg t shown := by
  unfold deliver at step
  split at step
  · next err stage =>
    obtain ⟨stream, ends, rfl⟩ := Option.map_eq_some_iff.mp step
    obtain ⟨_, rfl⟩ := Stream.settled ends
    refine { h with returned := fun other is => ?_ }
    cases is
    exact stage
  · cases step

theorem break_shows {status : Status} (h : Shows cfg s shown) (step : break_ s status = some t) :
    Shows cfg t shown := by
  obtain ⟨stream, ends, rfl⟩ := Option.map_eq_some_iff.mp step
  cases Stream.failed ends
  exact { h with }

/-! ## Every run -/

theorem listing_shows {req : Request} {valid : Bool} (h : (listing cfg req valid).Reachable s) :
    ∃ shown, Shows cfg s shown := by
  refine h.invariant (I := fun s => ∃ shown, Shows cfg s shown) ?_ ?_
  · rintro s rfl
    exact ⟨[], requested_shows cfg⟩
  · rintro s move t _ ⟨shown, ih⟩ step
    cases move with
    | open_ err => exact ⟨shown, open_shows ih step⟩
    | recv early => exact recv_shows ih step
    | accept =>
      have step : accept cfg valid (withAuth req.header) s = some t := step
      exact ⟨shown, accept_shows ih step⟩
    | take => exact ⟨shown, take_shows ih step⟩
    | takeError status => exact ⟨shown, takeError_shows ih step⟩
    | list msgs => exact ⟨shown, list_shows ih step⟩
    | send err => exact ⟨shown, send_shows ih step⟩
    | deliver => exact ⟨shown, deliver_shows ih step⟩
    | break_ status => exact ⟨shown, break_shows ih step⟩

/-- What is shown is a beginning of what the store answered. -/
theorem Shows.beginning (h : Shows cfg s shown) : shown <+: s.listed.getD [] := by
  have sends := h.sends
  cases stage : s.service with
  | idle | accepting | called =>
    rw [stage] at sends
    simp [(List.append_eq_nil_iff.mp sends.2).1]
  | listing limit =>
    rw [stage] at sends
    simp [(List.append_eq_nil_iff.mp sends.2.2).1]
  | sending rest =>
    rw [stage] at sends
    have listed : s.listed = some _ := sends
    simp [listed, List.append_assoc]
  | returned err =>
    rw [stage] at sends
    cases err with
    | none =>
      have listed : s.listed = some _ := sends
      simp [listed]
    | some status => exact (List.prefix_append _ _).trans sends

/-- **A list over a stream.** In every run, the gateway answers with an error only if the stream
could not be opened: it has seen no end of one, and the service was never called. Else the answer is
200 however the stream has ended, and has a line for each message of a beginning of what the store
answered, in its order; that is all of it where the gateway has seen the end of the stream. -/
theorem list_beginning {req : Request} {valid : Bool} (h : (listing cfg req valid).Reachable s)
    {r : Response} (answered : s.client = .answered r) :
    (s.service = .idle ∧ s.ended = none ∧ ∃ status, r = writeGRPCError cfg.json status) ∨
    ∃ shown, shown <+: s.listed.getD [] ∧ r = ⟨200, ndjson, shown.flatMap (line cfg.json)⟩ ∧
      (s.ended = some none → s.listed = some shown) := by
  obtain ⟨shown, holds⟩ := listing_shows h
  have written := holds.written
  rw [answered] at written
  rcases written with ⟨none, status⟩ | ⟨_, rfl⟩
  · exact .inl ⟨holds.unopened r answered none, none, status⟩
  · refine .inr ⟨shown, holds.beginning, rfl, fun seen => ?_⟩
    obtain ⟨stage, empty⟩ := holds.seen seen
    have sends := holds.sends
    rw [stage] at sends
    simpa [Sends, empty] using sends

/-- A message. -/
def messageOf (id : Nat) : Message := ⟨id, "a", "c", true, 0⟩

/-- A request for the list. -/
def getList : Request := ⟨"GET", "/gw/grpc/messages", Header.empty, [], "10.0.0.1:5000"⟩

/-- The stream breaks after the first of two messages. -/
def cutOff : List Step :=
  [.open_ none, .accept, .take, .list (some [messageOf 7, messageOf 9]), .send none, .recv false,
    .send none, .break_ .broken,
    .recv true]

theorem list_beginning_cutOff :
    ∃ s r shown, (listing ⟨Handlers.plainJson, false⟩ getList true).Reachable s ∧
    s.client = .answered r ∧ s.listed = some [messageOf 7, messageOf 9] ∧ r.status = 200 ∧
    r.body = [7, 10] ∧
    shown <+: [messageOf 7, messageOf 9] ∧ r.body = shown.flatMap (line Handlers.plainJson) := by
  have replayed : ∃ s r, System.replay
    (step ⟨Handlers.plainJson, false⟩ true (withAuth getList.header)) requested cutOff = some s ∧
      s.client = .answered r ∧ s.listed = some [messageOf 7, messageOf 9] ∧
      s.ended = some (some .broken) ∧ r.status = 200 ∧
      r.body = [7, 10] := ⟨_, _, rfl, rfl, rfl, rfl, rfl, rfl⟩
  obtain ⟨s, r, hs, answered, listed, ended, ok, body⟩ := replayed
  have reached : (listing ⟨Handlers.plainJson, false⟩ getList true).Reachable s :=
    ⟨_, rfl, System.Runs.of_replay hs⟩
  rcases list_beginning reached answered with ⟨_, none, _⟩ | ⟨shown, beginning, rfl, _⟩
  · rw [ended] at none
    cases none
  · rw [listed] at beginning
    exact ⟨s, _, shown, reached, answered, listed, ok, body, beginning, rfl⟩

end OtusApp.Gateway.Listing
