import OtusApp.Laws.Broker.Careful

/-!
# A message is held by its broker, or stored

The invariant of a careful client: what is acknowledged, at once or by an acknowledgement still
under way, is decoded, and every write its consumer was configured for has taken effect. It is kept
by every call and every move of the broker, for any number of consumers and publications
(`settled`).
-/

namespace OtusApp.Broker

open Messaging Program Transition
open Projection (Config Stores Write Stored answer)

variable {codec : EventCodec} {E : Type} {R : E → Type} {S C B H : Type}

/-- The message is decoded, and all that some consumer was to write of it is written. -/
def Done (codec : EventCodec) (among : Config → Prop) (s : Stores) (p : codec.Payload) : Prop :=
  ∃ ev cfg, codec.unmarshal p = some ev ∧ among cfg ∧ required cfg ev ⊆ s.written

theorem Done.mono {among : Config → Prop} {s t : Stores} (grows : s.written ⊆ t.written)
    (p : codec.Payload) (h : Done codec among s p) : Done codec among t p := by
  obtain ⟨ev, cfg, decoded, configured, written⟩ := h
  exact ⟨ev, cfg, decoded, configured, List.Subset.trans written grows⟩

section

variable {sv : Service E R S C B} (v : View codec sv H) (among : Config → Prop)

/-- What a mode says of the world: the writes took effect, and the message in hand is in the log. -/
def Sound (w : World S) (m : Mode codec.Payload) : Prop :=
  ∀ cfg hand done, m = .consuming cfg hand done →
    among cfg ∧ done ⊆ w.stores.written ∧ ∀ k p, hand = some (k, p) →
    (v.ledger w.broker).log[k]? = some p

/-- The invariant of the world and the modes. -/
structure Settled (w : World S) (modes : List (Mode codec.Payload)) : Prop where
  honest : Acks.Honest (Done codec among w.stores) (v.ledger w.broker)
  stores : Projection.Held w.stores
  sound : ∀ m ∈ modes, Sound v among w m

/-- Nothing written and no message is lost. -/
structure Later (w t : World S) : Prop where
  written : w.stores.written ⊆ t.stores.written
  log : ∀ (k : Nat) (p : codec.Payload), (v.ledger w.broker).log[k]? = some p →
    (v.ledger t.broker).log[k]? = some p

variable {v among}

theorem Later.refl (w : World S) : Later v w w := ⟨List.Subset.refl _, fun _ _ found => found⟩

theorem Sound.later {w t : World S} (later : Later v w t) {m : Mode codec.Payload}
    (h : Sound v among w m) :
    Sound v among t m := by
  intro cfg hand done same
  obtain ⟨configured, written, held⟩ := h cfg hand done same
  exact ⟨configured, List.Subset.trans written later.written, fun k p found =>
    later.log k p (held k p found)⟩

/-- The program at `i` goes on in a mode that is sound. -/
theorem Settled.set {w t : World S} {modes : List (Mode codec.Payload)}
    (h : Settled v among w modes) (later : Later v w t)
    (honest : Acks.Honest (Done codec among t.stores) (v.ledger t.broker))
    (stores : Projection.Held t.stores) (i : Nat) {m : Mode codec.Payload}
    (sound : Sound v among t m) : Settled v among t (modes.set i m) := by
  refine ⟨honest, stores, fun m' mem => ?_⟩
  rcases List.mem_or_eq_of_mem_set mem with old | rfl
  · exact (h.sound m' old).later later
  · exact sound

/-! ## One step -/

variable {w : World S} {modes : List (Mode codec.Payload)} {i : Nat} {m : Mode codec.Payload}

/-- A call to the broker. -/
theorem Settled.client (h : Settled v among w modes) (entry : modes[i]? = some m) {e : E}
    {onward : R e → Mode codec.Payload} (admitted : careful v m (.client e) = some onward) {c : C}
    {r : R e} {s : S} (answers : sv.respond w.broker e c = some (r, s)) :
    Settled v among { w with broker := s } (modes.set i (onward r)) := by
  have moves := v.call _ _ _ _ _ answers
  have later : Later v w { w with broker := s } :=
    ⟨List.Subset.refl _, fun k p found => moves.stays found⟩
  have before := h.sound m (List.mem_of_getElem? entry)
  cases m with
  | publishing =>
    obtain ⟨quiet, same⟩ := Option.ite_none_right_eq_some.mp admitted
    cases same
    refine h.set later (h.honest.moves moves fun k acked => ?_) h.stores i nofun
    rw [quiet] at acked
    cases acked
  | consuming cfg hand done =>
    obtain ⟨due, same⟩ := Option.ite_none_right_eq_some.mp admitted
    cases same
    obtain ⟨configured, written, held⟩ := before cfg hand done rfl
    refine h.set later (h.honest.moves moves fun k acked => ?_) h.stores i ?_
    · obtain ⟨p, ev, inHand, decoded, finished⟩ := due k acked
      exact ⟨p, held k p inHand, ev, cfg, decoded, configured, List.Subset.trans finished written⟩
    · rintro _ _ _ ⟨⟩
      refine ⟨configured, written, fun k p found => ?_⟩
      -- the message in hand is the one just handed out, or the one before
      cases gave : v.gives e r with
      | some got =>
        rw [gave] at found
        cases found
        exact v.given _ _ _ _ _ answers k p gave
      | none =>
        rw [gave] at found
        exact later.log k p (held k p found)

/-- A write to a store. -/
theorem Settled.write (h : Settled v among w modes) (entry : modes[i]? = some m) {x : Write}
    {onward : Bool → Mode codec.Payload} (admitted : careful v m (.write x) = some onward)
    (f : Projection.Fate) :
    Settled v among { w with stores := (answer w.stores x f).2 }
      (modes.set i (onward (answer w.stores x f).1)) := by
  obtain ⟨stepped, _, done⟩ := Projection.answer_stepped w.stores x f
  have later : Later v w { w with stores := (answer w.stores x f).2 } :=
    ⟨stepped.written, fun _ _ found => found⟩
  have honest : Acks.Honest (Done codec among (answer w.stores x f).2) (v.ledger w.broker) :=
    h.honest.mono (Done.mono stepped.written)
  cases m with
  | publishing => cases admitted
  | consuming cfg hand done' =>
    cases admitted
    obtain ⟨configured, written, held⟩ := h.sound _ (List.mem_of_getElem? entry) cfg hand done' rfl
    refine h.set later honest (stepped.held h.stores) i ?_
    rintro _ _ _ ⟨⟩
    refine ⟨configured, ?_, held⟩
    split
    · next ok => exact List.cons_subset.mpr ⟨done ok, List.Subset.trans written stepped.written⟩
    · exact List.Subset.trans written stepped.written

/-- Where an answer that only passes through the program leads. -/
theorem careful_plain {e : Call E} {onward : e.Result R → Mode codec.Payload}
    (admitted : careful v m e = some onward) (plain : (∀ e', e ≠ .client e') ∧ ∀ x, e ≠ .write x)
    (r : e.Result R) : onward r = m := by
  cases e with
  | client e => exact absurd rfl (plain.1 e)
  | write x => exact absurd rfl (plain.2 x)
  | err | sleep | draw | wait =>
    cases m with
    | publishing =>
      cases admitted
      rfl
    | consuming =>
      cases admitted
      rfl

/-- A call that is neither. -/
theorem Settled.plain (h : Settled v among w modes) (entry : modes[i]? = some m) {e : Call E}
    {onward : e.Result R → Mode codec.Payload} (admitted : careful v m e = some onward)
    (plain : (∀ e', e ≠ .client e') ∧ ∀ x, e ≠ .write x) (r : e.Result R) :
    Settled v among w (modes.set i (onward r)) := by
  rw [careful_plain admitted plain r]
  exact h.set (.refl w) h.honest h.stores i (h.sound m (List.mem_of_getElem? entry))

/-- The answer to a call. -/
theorem Settled.call (h : Settled v among w modes) (entry : modes[i]? = some m) {e : Call E}
    {onward : e.Result R → Mode codec.Payload} (admitted : careful v m e = some onward)
    {c : Choice C} {r : e.Result R} {t : World S} (answers : sv.call w e c = some (r, t)) :
    Settled v among t (modes.set i (onward r)) := by
  unfold Service.call at answers
  split at answers
  case h_5 =>
    cases answers
    exact h.write entry admitted _
  case h_6 e c =>
    obtain ⟨⟨r, s⟩, answered, same⟩ := Option.map_eq_some_iff.mp answers
    cases same
    exact h.client entry admitted answered
  case h_7 => cases answers
  all_goals
    cases answers
    exact h.plain entry admitted ⟨nofun, nofun⟩ _

/-- A move of the stores or of the broker. -/
theorem Settled.move (h : Settled v among w modes) {q : Quiet B} {t : World S}
    (moves : sv.move w q = some t) :
    Settled v among t modes := by
  cases q with
  | again k =>
    obtain ⟨stores, again, rfl⟩ := Option.map_eq_some_iff.mp moves
    have stepped := (Projection.again_stepped again).1
    have later : Later v w { w with stores := stores } := ⟨stepped.written, fun _ _ found => found⟩
    exact ⟨h.honest.mono (Done.mono stepped.written), stepped.held h.stores, fun m mem =>
      (h.sound m mem).later later⟩
  | broker b =>
    obtain ⟨s, moved, rfl⟩ := Option.map_eq_some_iff.mp moves
    have stays := v.move _ _ _ moved
    have later : Later v w { w with broker := s } :=
      ⟨List.Subset.refl _, fun _ _ found => stays.stays found⟩
    exact ⟨h.honest.moves stays fun _ => False.elim, h.stores, fun m mem =>
      (h.sound m mem).later later⟩

end

/-! ## Every run -/

variable {sv : Service E R S C B} {v : View codec sv H} {b : Client E R} {init : S → Prop}
    {among : Config → Prop}

/-- The mode a program begins in. -/
def firstMode {P : Type} : Task b → Mode P
  | .consumer cfg _ => .consuming cfg none []
  | .publication _ _ => .publishing

theorem Careful.task (h : Careful v b) (q : Task b) :
    q.code.Follows (careful v) (fun _ _ => True) (firstMode q) := by
  cases q with
  | consumer cfg turns => exact (h.supervise cfg turns 0 none []).mono fun _ _ _ => trivial
  | publication p ev => exact (h.publish p ev).bind fun _ _ _ => trivial

/-- **The run.** Whatever the programs, what is acknowledged is stored. -/
theorem settled (h : Careful v b) (empty : ∀ s, init s → v.ledger s = .empty)
    {w : Pool (Task b) (Call E) (Call.Result R) Bool (World S)}
    (reach : (sv.deployment b init among).Reachable w) :
    ∃ modes, Settled v among w.env modes := by
  have tracked : ∃ modes, Settled v among w.env modes ∧
    Machine.Tracks (careful v) (fun _ _ _ => True) modes w.procs :=
    Machine.tracked (m := sv.machine b) firstMode (Settled v among) ?start
      (fun _ q _ => h.task q) ?arrives ?goes ?moves
      reach
  · obtain ⟨modes, holds, _⟩ := tracked
    exact ⟨modes, holds⟩
  case start =>
    rintro ⟨broker, stores⟩ ⟨begins, rfl⟩
    refine ⟨?_, ⟨rfl, rfl, rfl, List.nil_subset _⟩, nofun⟩
    rw [empty broker begins]
    exact Acks.honest_empty
  case arrives =>
    rintro w q t modes configured holds ⟨⟩
    refine ⟨holds.honest, holds.stores, fun m mem => ?_⟩
    rcases List.mem_append.mp mem with old | new
    · exact holds.sound m old
    · cases List.mem_singleton.mp new
      cases q with
      | consumer cfg turns =>
        rintro _ _ _ ⟨⟩
        exact ⟨configured cfg turns rfl, List.nil_subset _, nofun⟩
      | publication => nofun
  case goes =>
    intro w i c q e k r t modes mode onward _ _ _ holds entry admitted answers
    exact holds.call entry admitted answers
  case moves =>
    intro w q t modes _ _ holds moved
    exact holds.move moved

/-- The event's writes took effect, and each store of the consumer has a row under the event's
key. -/
structure Filed (cfg : Config) (ev : MessageCreated) (s : Stores) : Prop where
  written : required cfg ev ⊆ s.written
  rows : cfg.events = true → (∃ r ∈ s.cassandra.eventsById, r.id = ev.id) ∧
    ∃ r ∈ s.cassandra.messageEvents, r.key = (Cstore.feedRow ev cfg.broker).key
  document : cfg.index = true → ∃ e ∈ s.messages, e.1 = (Projection.document ev cfg.broker).docId

theorem filed {s : Stores} (held : Projection.Held s) {cfg : Config} {ev : MessageCreated}
    (written : required cfg ev ⊆ s.written) : Filed cfg ev s := by
  refine ⟨written, fun on => ?_, fun on => ?_⟩
  · have mem : (ev, cfg.broker) ∈ Projection.batches s.written := by
      refine Projection.mem_batches.mpr (written (List.mem_append_left _ ?_))
      rw [if_pos on]
      exact List.mem_cons_self
    have row := List.mem_map_of_mem (f := fun b => Cstore.eventRow b.1 b.2) mem
    have feed := List.mem_map_of_mem (f := fun b => Cstore.feedRow b.1 b.2) mem
    constructor
    · obtain ⟨r, found, key⟩ := Upsert.exists_mem_table Cstore.EventRow.id row
      exact ⟨r, held.eventsById ▸ found, key⟩
    · obtain ⟨r, found, key⟩ := Upsert.exists_mem_table Cstore.FeedRow.key feed
      exact ⟨r, held.messageEvents ▸ found, key⟩
  · have mem : Projection.document ev cfg.broker ∈ Projection.documents s.written := by
      refine Projection.mem_documents.mpr (written (List.mem_append_right _ ?_))
      rw [if_pos on]
      exact List.mem_cons_self
    have entry := List.mem_map_of_mem (f := Projection.entry) mem
    obtain ⟨e, found, key⟩ := Upsert.exists_mem_table Prod.fst entry
    exact ⟨e, held.messages ▸ found, key⟩

/-- **At least once.** A message of the log is held by the broker, or decoded and filed. -/
theorem held_or_filed (h : Careful v b) (empty : ∀ s, init s → v.ledger s = .empty)
    {w : Pool (Task b) (Call E) (Call.Result R) Bool (World S)}
    (reach : (sv.deployment b init among).Reachable w) {k : Nat} {p : codec.Payload}
    (found : (v.ledger w.env.broker).log[k]? = some p) :
    (v.ledger w.env.broker).Held k ∨
      ∃ ev cfg, codec.unmarshal p = some ev ∧ among cfg ∧ Filed cfg ev w.env.stores := by
  obtain ⟨modes, holds⟩ := settled h empty reach
  rcases holds.honest.held found with kept | ⟨ev, cfg, decoded, configured, written⟩
  · exact .inl kept
  · exact .inr ⟨ev, cfg, decoded, configured, filed holds.stores written⟩

/-! ## Publications -/

/-- Over the service, with `I` kept and the broker moving by `rely`, the program returns only with
`post`. -/
def Safely {α : Type} (sv : Service E R S C B) (I : S → Prop) (rely : S → S → Prop)
    (post : α → World S → Prop) (x : Code E R α) (w : World S) : Prop :=
  x.Safe (fun w t => rely w.broker t.broker) (fun w e r t => I w.broker ∧
    ∃ c, sv.call w e c = some (r, t)) post w

/-- What a service and a publication over it guarantee: `I` and `rely` are kept by the service, and
a publication that returns `nil` has the event `Accepted`. -/
structure Confirms (sv : Service E R S C B) (b : Client E R) (I : S → Prop) (rely : S → S → Prop)
    (Accepted : MessageCreated → S → Prop) : Prop where
  refl : ∀ s, rely s s
  trans : ∀ s t u, rely s t → rely t u → rely s u
  call : ∀ s e c r t, I s → sv.respond s e c = some (r, t) → I t ∧ rely s t
  move : ∀ s b t, I s → sv.background s b = some t → I t ∧ rely s t
  stable : ∀ ev s t, Accepted ev s → rely s t → Accepted ev t
  publish : ∀ p ev w, Safely sv I rely (fun r t => r.1 = true → Accepted ev t.broker)
    (b.publish p ev) w

/-- The answer to a call is the broker's, or leaves it as it is. -/
theorem call_broker {w t : World S} {e : Call E} {c : Choice C} {r : e.Result R}
    (h : sv.call w e c = some (r, t)) :
    t.broker = w.broker ∨ ∃ e' c' r', e = .client e' ∧
    sv.respond w.broker e' c' = some (r', t.broker) := by
  unfold Service.call at h
  split at h
  case h_6 e c =>
    obtain ⟨⟨r, s⟩, answered, same⟩ := Option.map_eq_some_iff.mp h
    cases same
    exact .inr ⟨e, c, r, rfl, answered⟩
  case h_7 => cases h
  all_goals
    cases h
    exact .inl rfl

variable {I : S → Prop} {rely : S → S → Prop} {Accepted : MessageCreated → S → Prop}

/-- A call to the broker. -/
theorem Safely.client {α : Type} {post : α → World S → Prop} {e : E} {k : R e → Code E R α}
    {w : World S}
    (rest : ∀ w₁ : World S, rely w.broker w₁.broker → I w₁.broker → ∀ c r s,
      sv.respond w₁.broker e c = some (r, s) →
      Safely sv I rely post (k r) { w₁ with broker := s }) :
    Safely sv I rely post (Broker.client e >>= k) w := by
  rintro w₁ moved r w₂ ⟨holds, c, answers⟩
  cases c with
  | client c =>
    obtain ⟨⟨r, s⟩, answered, same⟩ := Option.map_eq_some_iff.mp answers
    cases same
    exact rest w₁ moved holds c r s answered
  | _ => cases answers

/-- A part of which nothing is asked. -/
theorem Safely.skip {α β : Type} {post : β → World S → Prop} {x : Code E R α} {f : α → Code E R β}
    {w : World S} (rest : ∀ a w, Safely sv I rely post (f a) w) :
    Safely sv I rely post (x >>= f) w :=
  (Prog.safe_true x w).bind fun a w _ => rest a w

theorem Confirms.step (h : Confirms sv b I rely Accepted)
    {w w' : Pool (Task b) (Call E) (Call.Result R) Bool (World S)}
    {mv : Move (Task b) (Choice C) (Quiet B)} (step : (sv.machine b).step w mv = some w')
    (holds : I w.env.broker) :
    I w'.env.broker ∧ rely w.env.broker w'.env.broker := by
  have same : ∀ s, s = w.env.broker → I s ∧ rely w.env.broker s := by
    rintro s rfl
    exact ⟨holds, h.refl _⟩
  cases Machine.stepped step with
  | arrive taken =>
    cases taken
    exact same _ rfl
  | go runs answers =>
    rcases call_broker answers with kept | ⟨e, c, r, _, answered⟩
    · exact same _ kept
    · exact h.call _ _ _ _ _ holds answered
  | @background q env moves =>
    cases q with
    | again k =>
      obtain ⟨stores, _, rfl⟩ := Option.map_eq_some_iff.mp moves
      exact same _ rfl
    | broker b =>
      obtain ⟨s, moved, rfl⟩ := Option.map_eq_some_iff.mp moves
      exact h.move _ _ _ holds moved

/-- **Publications.** One that returned `nil` has its event accepted, then and ever after. -/
theorem Confirms.accepted (h : Confirms sv b I rely Accepted) (start : ∀ s, init s → I s)
    {w : Pool (Task b) (Call E) (Call.Result R) Bool (World S)}
    (reach : (sv.deployment b init among).Reachable w) {p : b.Publisher} {ev : MessageCreated}
    (returned : (.publication p ev, .ret true) ∈ w.procs) :
    Accepted ev w.env.broker := by
  have reached := reach.of_restrict
  have inv :
    ∀ w, ((sv.machine b).system fun w => init w.broker ∧ w.stores = Projection.empty).Reachable w →
      I w.env.broker := by
    intro w reached
    refine reached.invariant (I := fun w => I w.env.broker) ?_ ?_
    · rintro w ⟨⟨begins, _⟩, _⟩
      exact start _ begins
    · intro w mv w' _ holds step
      exact (h.step step holds).1
  obtain ⟨i, entry⟩ := List.getElem?_of_mem returned
  -- of a consumer nothing is asked here
  have guarantee := Machine.safe (fun w : World S => I w.broker) (fun w t => rely w.broker t.broker)
    (fun q ok t => ∀ p ev, q = Task.publication p ev → ok = true → Accepted ev t.broker) inv
      (fun w => h.refl w.broker)
    (fun s t u => h.trans _ _ _) (fun w mv w' reached step => (h.step step (inv w reached)).2)
    (fun q ok s t post moved p ev is ok' => h.stable ev _ _ (post p ev is ok') moved) ?_
      reached i _ _ entry
  · exact guarantee p ev rfl rfl
  · intro i q s t _ taken
    cases taken
    cases q with
    | consumer cfg turns =>
      refine (Prog.safe_true _ _).mono ?_
      rintro ok t - p ev ⟨⟩
    | publication p ev =>
      refine (h.publish p ev s).bind ?_
      rintro r t accepted p' ev' ⟨⟩
      exact accepted

end OtusApp.Broker
