import OtusApp.App.Lifecycle

/-!
# Nothing is used after it was closed

`run` closes what it opened in the reverse order, on every path, so what a server may use is open as
long as the server is. The gRPC server, the workers of the outbox and the readers are waited for
before they count as closed. Only `Shutdown` of the HTTP server gives up at a deadline, and a server
that fails waits for nothing: requests that are then left may find the stores closed. The watch on
the limit never ends, so it is at work after its coordinator was closed; and some clients are never
closed.
-/

namespace OtusApp.Lifecycle

open Program Transition

/-! ## What run opens it closes -/

/-- What may be called when, by what is open: nothing is opened twice, and what is closed was opened
last. -/
def scoping : Protocol Call Call.Result (List Resource)
  | m, .new r => if r ∈ m then none else some fun (o : Opened) => if o = .opened then r :: m else m
  | m, .start r => if r ∈ m then none else some fun _ => r :: m
  | m, .wait =>
    if m.head? = some .http then some fun (signal : Bool) => if signal then m else m.tail else none
  | m, .close r => if m.head? = some r then some fun _ => m.tail else none
  | m, .connect _ => some fun _ => m
  | m, .watch => some fun _ => m
  | m, .serverTLS => some fun _ => m
  | m, .listen => some fun _ => m

/-- The code leaves open what was open before it, and nothing else. -/
abbrev Restores {α : Type} (x : Code α) (m : List Resource) : Prop :=
  x.Follows scoping (fun m' _ => m' = m) m

variable {m : List Resource}

theorem closing_follows (r : Resource) :
    (closing r).Follows scoping (fun m' _ => m' = m) (r :: m) :=
  ⟨_, if_pos rfl, fun _ => rfl⟩

theorem deferring_restores {r : Resource} {body : Code Bool} (h : Restores body (r :: m)) :
    (Prog.deferring (closing r) body).Follows scoping (fun m' _ => m' = m) (r :: m) := by
  refine Prog.Follows.deferring h ?_
  rintro _ ok rfl
  exact closing_follows r

/-- A server that is started, and stopped at the end. -/
theorem starting_restores {α : Type} {r : Resource} {rest : Code α} (new : r ∉ m)
    (h : rest.Follows scoping (fun m' _ => m' = m) (r :: m)) :
    Restores ((Prog.ask (Call.start r) : Code Unit) >>= fun _ => rest) m :=
  ⟨_, if_neg new, fun _ => h⟩

/-- A constructor, and a closer where there is something to close. -/
theorem opening_restores {r : Resource} {rest : Opened → Code Bool} (new : r ∉ m)
    (opened : (rest .opened).Follows scoping (fun m' _ => m' = m) (r :: m))
    (failed : Restores (rest .failed) m) (absent : Restores (rest .absent) m) :
    Restores ((Prog.ask (Call.new r) : Code Opened) >>= rest) m := by
  refine ⟨_, if_neg new, fun (o : Opened) => ?_⟩
  cases o with
  | failed => exact failed
  | absent => exact absent
  | opened => exact opened

/-- A client that nothing closes. -/
theorem connecting_restores {α : Type} {c : Client} {rest : Code α} (h : Restores rest m) :
    Restores (connecting c >>= fun _ => rest) m :=
  ⟨_, rfl, fun _ => h⟩

theorem httpRun_restores (new : .http ∉ m) : Restores httpRun m := by
  refine starting_restores new ⟨_, rfl, fun (signal : Bool) => ?_⟩
  cases signal with
  | false => rfl
  | true => exact ⟨_, rfl, fun _ => rfl⟩

theorem serve_restores (new : ∀ r ∈ [Resource.grpc, .http], r ∉ m) : Restores serve m := by
  simp only [List.mem_cons, forall_eq_or_imp] at new
  refine connecting_restores ⟨_, rfl, fun (tls : Bool) => ?_⟩
  cases tls with
  | false => rfl
  | true =>
    refine ⟨_, rfl, fun (listens : Bool) => ?_⟩
    cases listens with
    | false => rfl
    | true => exact starting_restores new.1 (deferring_restores (httpRun_restores (by simp [new])))

theorem withEvents_restores (new : ∀ r ∈ [Resource.events, .grpc, .http], r ∉ m) :
    Restores withEvents m := by
  simp only [List.mem_cons, forall_eq_or_imp] at new
  have served : Restores serve m := serve_restores (by simp [new])
  exact opening_restores new.1 (deferring_restores (serve_restores (by simp [new]))) served served

theorem withOutbox_restores (new : ∀ r ∈ [Resource.outbox, .events, .grpc, .http], r ∉ m) :
    Restores withOutbox m := by
  simp only [List.mem_cons, forall_eq_or_imp] at new
  refine starting_restores new.1 (deferring_restores (connecting_restores (connecting_restores ?_)))
  exact withEvents_restores (by simp [new])

theorem withLimiter_restores (coordinator : Bool)
    (new : ∀ r ∈ [Resource.outbox, .events, .grpc, .http], r ∉ m) :
    Restores (withLimiter coordinator) m := by
  have rest :=
    connecting_restores (c := .audit) (connecting_restores (c := .cache) (withOutbox_restores new))
  cases coordinator with
  | false => exact connecting_restores rest
  | true => exact connecting_restores ⟨_, rfl, fun _ => rest⟩

theorem withStore_restores (coordinator : Bool)
    (new : ∀ r ∈ [Resource.store, .outbox, .events, .grpc, .http], r ∉ m) :
    Restores (withStore coordinator) m := by
  simp only [List.mem_cons, forall_eq_or_imp] at new
  exact opening_restores new.1
    (deferring_restores (withLimiter_restores coordinator (by simp [new]))) rfl rfl

theorem withCoordinator_restores
    (new : ∀ r ∈ [Resource.coordinator, .store, .outbox, .events, .grpc, .http], r ∉ m) :
    Restores withCoordinator m := by
  simp only [List.mem_cons, forall_eq_or_imp] at new
  exact opening_restores new.1 (deferring_restores (withStore_restores true (by simp [new]))) rfl
    (withStore_restores false (by simp [new]))

theorem runApp_restores (dsn : Bool) : Restores (runApp dsn) [] := by
  cases dsn with
  | false => rfl
  | true =>
    exact opening_restores (by simp) (deferring_restores (withCoordinator_restores (by simp))) rfl
      (withCoordinator_restores (by simp))

theorem read_restores (new : ∀ r ∈ [Resource.metrics, .readers], r ∉ m) : Restores read m := by
  simp only [List.mem_cons, forall_eq_or_imp] at new
  refine starting_restores new.1 (deferring_restores ?_)
  refine starting_restores (by simp [new]) ((closing_follows .readers).bind ?_)
  rintro _ _ rfl
  rfl

theorem withIndex_restores (events : Bool) (new : ∀ r ∈ [Resource.metrics, .readers], r ∉ m) :
    Restores (withIndex events) m := by
  refine ⟨_, rfl, fun (o : Opened) => ?_⟩
  cases o with
  | failed => rfl
  | absent =>
    cases events with
    | false => rfl
    | true => exact read_restores new
  | opened => exact read_restores new

theorem withStores_restores (new : ∀ r ∈ [Resource.events, .metrics, .readers], r ∉ m) :
    Restores withStores m := by
  simp only [List.mem_cons, forall_eq_or_imp] at new
  exact opening_restores new.1 (deferring_restores (withIndex_restores true (by simp [new]))) rfl
    (withIndex_restores false (by simp [new]))

theorem runConsumer_restores : Restores runConsumer [] :=
  opening_restores (by simp) (deferring_restores (withStores_restores (by simp))) rfl
    (withStores_restores (by simp))

theorem run_restores (p : Process) : Restores (run p) [] := by
  cases p with
  | app dsn => exact runApp_restores dsn
  | consumer => exact runConsumer_restores

/-! ## What a call does -/

/-- How a call is answered, and what it leaves. A server that serves is closed when nothing uses it
any more; `Shutdown` of the HTTP server may give up before. -/
inductive Responds (s : Env) : (e : Call) → e.Result → Env → Prop
  | opened (r : Resource) : Responds s (.new r) Opened.opened (s.push r)
  | unopened (r : Resource) {o : Opened} (other : o ≠ .opened) : Responds s (.new r) o s
  | started (r : Resource) : Responds s (.start r) () (s.push r)
  | connected (c : Client) :
      Responds s (.connect c) Opened.opened { s with clients := c :: s.clients }
  | unconnected (c : Client) {o : Opened} (other : o ≠ .opened) : Responds s (.connect c) o s
  | watching : Responds s .watch () { s with watching := true }
  | serverTLS (ok : Bool) : Responds s .serverTLS ok s
  | listening (ok : Bool) : Responds s .listen ok s
  | signalled : Responds s .wait true s
  | failed : Responds s .wait false s.abandon
  | expired : Responds s (.close .http) false s.abandon
  | closed (r : Resource) (ok : Bool) (awaited : r.serves = true → s.users r = 0) :
      Responds s (.close r) ok (s.pop r)

/-- Closing anything but the HTTP server. -/
theorem respond_close {s : Env} {r : Resource} {q : Nat × Process} (other : r ≠ .http) (ok : Bool) :
    respond s q (.close r) (.ok ok) = if r.waits ∧ s.users r ≠ 0 then none
      else some (ok, s.pop r) := by
  cases r with
  | http => exact absurd rfl other
  | _ => rfl

theorem respond_responds {s t : Env} {q : Nat × Process} {e : Call} {c : Choice}
    {result : e.Result} (answers : respond s q e c = some (result, t)) :
    Responds s e result t := by
  cases e with
  | new r =>
    cases c with
    | ok ok => cases answers
    | opened o =>
      cases o <;> cases answers
      · exact .unopened r (by decide)
      · exact .unopened r (by decide)
      · exact .opened r
  | start r =>
    cases answers
    exact .started r
  | connect client =>
    cases c with
    | ok ok => cases answers
    | opened o =>
      cases o <;> cases answers
      · exact .unconnected client (by decide)
      · exact .unconnected client (by decide)
      · exact .connected client
  | watch =>
    cases answers
    exact .watching
  | serverTLS =>
    cases c <;> cases answers
    exact .serverTLS _
  | listen =>
    cases c <;> cases answers
    exact .listening _
  | wait =>
    cases c with
    | opened o => cases answers
    | ok signal =>
      cases signal <;> cases answers
      · exact .failed
      · exact .signalled
  | close r =>
    cases c with
    | opened o => cases r <;> cases answers
    | ok ok =>
      by_cases isHttp : r = .http
      · subst isHttp
        cases ok with
        | true =>
          obtain ⟨quiet, ⟨⟩⟩ := Option.ite_none_right_eq_some.mp answers
          exact .closed .http true fun _ => quiet
        | false =>
          cases answers
          exact .expired
      · rw [respond_close isHttp] at answers
        obtain ⟨ended, ⟨⟩⟩ := Option.ite_none_left_eq_some.mp answers
        refine .closed r _ fun serves => ?_
        have waits : r.waits = true := by simpa [Resource.serves, isHttp] using serves
        simpa [waits] using ended

/-! ## What the servers find -/

/-- Who may find closed what it uses: a request that was left, or the watch. -/
def Use.Excused (u : Use) (left : Bool) : Prop :=
  u.user = .server .http ∧ left = true ∨ u.user = .watch ∧ u.resource = .coordinator

theorem Use.Excused.mono {u : Use} {left left' : Bool} (h : u.Excused left)
    (more : left = true → left' = true) :
    u.Excused left' :=
  h.imp_left (And.imp_right more)

/-- Who is at work has a server that is open, or is a request that was left; so what it uses is open
as well. -/
structure Sound (s : Env) : Prop where
  nodup : s.live.Nodup
  within : Scoped s.scope s.live
  idle : ∀ r : Resource, r.serves = false → s.users r = 0
  served : ∀ r, 0 < s.users r → r ∈ s.live ∨ r = .http ∧ s.left = true
  uses : ∀ u ∈ s.uses, u.live = false → u.Excused s.left
  closes : ∀ c ∈ s.closes, c.2.head? = some c.1

namespace Sound

variable {s : Env} {r : Resource}

theorem fresh (h : Fresh s) : Sound s where
  nodup := by simp [h.live]
  within := by
    rw [h.live]
    exact scoped_nil _
  idle r _ := h.users r
  served r busy := by simp [h.users r] at busy
  uses := by simp [h.uses]
  closes := by simp [h.closes]

theorem push (h : Sound s) (new : r ∉ s.live) : Sound (s.push r) where
  nodup := List.nodup_cons.mpr ⟨new, h.nodup⟩
  within := h.within.push new
  idle := h.idle
  served x busy := (h.served x busy).imp_left (List.mem_cons_of_mem r)
  uses := h.uses
  closes := h.closes

/-- What is closed was opened last, and has nobody at work, or leaves its requests alone. -/
theorem pop {t : Env} {rest : List Resource} (h : Sound s) (last : s.live = r :: rest)
    (live : t.live = rest) (scope : t.scope = s.scope) (users : t.users = s.users)
    (uses : t.uses = s.uses) (closes : t.closes = (r, s.live) :: s.closes)
    (left : s.left = true → t.left = true) (mine : 0 < s.users r → r = .http ∧ t.left = true) :
    Sound t where
  nodup := by
    rw [live]
    exact (List.nodup_cons.mp (last ▸ h.nodup)).2
  within := by
    rw [scope, live]
    exact (last ▸ h.within : Scoped s.scope (r :: rest)).pop
  idle x plain := by rw [users, h.idle x plain]
  served x busy := by
    rw [users] at busy
    by_cases isR : x = r
    · subst isR
      exact .inr (mine busy)
    · rw [live]
      refine (h.served x busy).imp (fun open_ => ?_) (And.imp_right left)
      simpa [last, isR] using open_
  uses u mem closed := by
    rw [uses] at mem
    exact (h.uses u mem closed).mono left
  closes c mem := by
    rw [closes] at mem
    cases mem with
    | head => simp [last]
    | tail _ old => exact h.closes c old

/-- The HTTP server stops, whatever it is doing. -/
theorem abandon {rest : List Resource} (h : Sound s) (last : s.live = .http :: rest) :
    Sound s.abandon := by
  refine h.pop last (by simp [Env.abandon, Env.pop, last]) rfl rfl rfl rfl (fun was => ?_)
    (fun busy => ⟨rfl, ?_⟩)
  · simp [Env.abandon, was]
  · have : s.users .http ≠ 0 := by omega
    simp [Env.abandon, this]

/-- A server that is waited for is closed. -/
theorem close {rest : List Resource} (h : Sound s) (last : s.live = r :: rest)
    (quiet : s.users r = 0) : Sound (s.pop r) := by
  refine h.pop last (by simp [Env.pop, last]) rfl rfl rfl rfl id ?_
  omega

/-- The number of those at work for a server changes. -/
theorem works (h : Sound s) (n : Nat)
    (may : 0 < n → r.serves = true ∧ (r ∈ s.live ∨ r = .http ∧ s.left = true)) :
    Sound { s with users := Function.update s.users r n } where
  nodup := h.nodup
  within := h.within
  idle x plain := by
    dsimp only
    by_cases isR : x = r
    · subst isR
      rw [Function.update_self]
      by_contra busy
      simp [(may (by omega)).1] at plain
    · rw [Function.update_of_ne isR, h.idle x plain]
  served x busy := by
    dsimp only at busy
    by_cases isR : x = r
    · subst isR
      rw [Function.update_self] at busy
      exact (may busy).2
    · rw [Function.update_of_ne isR] at busy
      exact h.served x busy
  uses := h.uses
  closes := h.closes

theorem serves (h : Sound s) (busy : 0 < s.users r) : r.serves = true := by
  by_contra plain
  have := h.idle r (by simpa using plain)
  omega

/-- What is used is open while its user's server is. -/
theorem uses_inside {x : Resource} (h : Sound s) (busy : 0 < s.users r) (inside : x ∈ s.scope r) :
    Sound { s with uses := ⟨.server r, x, decide (x ∈ s.live)⟩ :: s.uses } where
  nodup := h.nodup
  within := h.within
  idle := h.idle
  served := h.served
  uses u mem closed := by
    cases mem with
    | head =>
      rcases h.served r busy with open_ | ⟨isHttp, left⟩
      · simp [h.within.mem open_ inside] at closed
      · exact .inl ⟨congrArg User.server isHttp, left⟩
    | tail _ old => exact h.uses u old closed
  closes := h.closes

/-- What the watch uses may be closed. -/
theorem watches (h : Sound s) (live : Bool) :
    Sound { s with uses := ⟨.watch, .coordinator, live⟩ :: s.uses } where
  nodup := h.nodup
  within := h.within
  idle := h.idle
  served := h.served
  uses u mem closed := by
    cases mem with
    | head => exact .inr ⟨rfl, rfl⟩
    | tail _ old => exact h.uses u old closed
  closes := h.closes

theorem background {t : Env} {b : Background} (h : Sound s)
    (moves : Lifecycle.background s b = some t) :
    Sound t ∧ t.live = s.live ∧ t.started = s.started := by
  cases b with
  | «begin» server =>
    obtain ⟨⟨serves, open_⟩, ⟨⟩⟩ := Option.ite_none_right_eq_some.mp moves
    exact ⟨h.works _ fun _ => ⟨serves, .inl open_⟩, rfl, rfl⟩
  | use server resource =>
    obtain ⟨⟨busy, inside⟩, ⟨⟩⟩ := Option.ite_none_right_eq_some.mp moves
    exact ⟨h.uses_inside busy inside, rfl, rfl⟩
  | finish server =>
    obtain ⟨busy, ⟨⟩⟩ := Option.ite_none_right_eq_some.mp moves
    exact ⟨h.works _ fun _ => ⟨h.serves busy, h.served server busy⟩, rfl, rfl⟩
  | watch =>
    obtain ⟨_, ⟨⟩⟩ := Option.ite_none_right_eq_some.mp moves
    exact ⟨h.watches _, rfl, rfl⟩

/-- A call that the protocol admits, and what is then open. -/
theorem respond {t : Env} {q : Nat × Process} {e : Call} {c : Choice} {result : e.Result}
    {onward : e.Result → List Resource} (h : Sound s) (admitted : scoping s.live e = some onward)
    (answers : Lifecycle.respond s q e c = some (result, t)) :
    Sound t ∧ onward result = t.live ∧ t.started = s.started := by
  cases respond_responds answers with
  | opened r =>
    obtain ⟨new, ⟨⟩⟩ := Option.ite_none_left_eq_some.mp admitted
    exact ⟨h.push new, rfl, rfl⟩
  | unopened r other =>
    obtain ⟨_, ⟨⟩⟩ := Option.ite_none_left_eq_some.mp admitted
    exact ⟨h, if_neg other, rfl⟩
  | started r =>
    obtain ⟨new, ⟨⟩⟩ := Option.ite_none_left_eq_some.mp admitted
    exact ⟨h.push new, rfl, rfl⟩
  | connected | watching =>
    cases admitted
    exact ⟨⟨h.nodup, h.within, h.idle, h.served, h.uses, h.closes⟩, rfl, rfl⟩
  | unconnected | serverTLS | listening =>
    cases admitted
    exact ⟨h, rfl, rfl⟩
  | signalled =>
    obtain ⟨_, ⟨⟩⟩ := Option.ite_none_right_eq_some.mp admitted
    exact ⟨h, rfl, rfl⟩
  | failed | expired =>
    obtain ⟨top, ⟨⟩⟩ := Option.ite_none_right_eq_some.mp admitted
    obtain ⟨rest, last⟩ := List.head?_eq_some_iff.mp top
    exact ⟨h.abandon last, by simp [Env.abandon, Env.pop, last], rfl⟩
  | closed r _ awaited =>
    obtain ⟨top, ⟨⟩⟩ := Option.ite_none_right_eq_some.mp admitted
    obtain ⟨rest, last⟩ := List.head?_eq_some_iff.mp top
    have quiet : s.users r = 0 := by
      cases serves : r.serves with
      | true => exact awaited serves
      | false => exact h.idle r serves
    exact ⟨h.close last quiet, by simp [Env.pop, last], rfl⟩

end Sound

/-- What is open is what the process has opened and not closed yet. -/
structure Owned (s : Env) (modes : List (List Resource)) : Prop where
  sound : Sound s
  off : s.started = false → s.live = []
  modes : modes = if s.started then [s.live] else []

theorem life_tracks {w : State} (h : life.Reachable w) :
    ∃ modes, Owned w.env modes ∧ Machine.Tracks scoping (fun _ m' _ => m' = []) modes w.procs := by
  refine Machine.tracked (m := machine) (fun _ => []) Owned ?_ (fun _ p _ => run_restores p) ?_ ?_
    ?_ h.unrestricted
  · intro s fresh
    exact ⟨.fresh fresh, fun _ => fresh.live, by simp [fresh.started]⟩
  · rintro w p t modes - owned starts
    obtain ⟨off, ⟨⟩⟩ := Option.ite_none_left_eq_some.mp starts
    have off : w.env.started = false := by simpa using off
    have sound := owned.sound
    refine ⟨⟨sound.nodup, sound.within, sound.idle, sound.served, sound.uses,
      sound.closes⟩, nofun, ?_⟩
    simp [owned.modes, off, owned.off off]
  · rintro w i c p e k r t modes mode onward - - - owned entry admitted answers
    rw [owned.modes] at entry ⊢
    have started : w.env.started = true := by
      by_contra off
      simp [off] at entry
    rw [if_pos started] at entry ⊢
    obtain ⟨rfl, rfl⟩ : i = 0 ∧ w.env.live = mode := by
      cases i with
      | zero => simpa using entry
      | succ i => simp at entry
    obtain ⟨sound, live, same⟩ := owned.sound.respond (q := (0, p)) admitted answers
    rw [started] at same
    exact ⟨sound, fun off => by simp [same] at off, by simp [same, live]⟩
  · rintro w b t modes - - owned moves
    obtain ⟨sound, live, same⟩ := owned.sound.background moves
    exact ⟨sound, by rw [same, live]; exact owned.off, by rw [same, live]; exact owned.modes⟩

/-! ## What is never closed -/

/-- The clients that nothing closes stay, and so does the watch. -/
structure Stays (s t : Env) : Prop where
  clients : s.clients <:+ t.clients
  watching : s.watching = true → t.watching = true

theorem Stays.refl (s : Env) : Stays s s := ⟨List.suffix_refl _, id⟩

theorem Stays.of_eq {s t : Env} (clients : t.clients = s.clients)
    (watching : t.watching = s.watching) : Stays s t :=
  ⟨clients ▸ List.suffix_refl _, fun was => watching.trans was⟩

theorem respond_stays {s t : Env} {q : Nat × Process} {e : Call} {c : Choice} {result : e.Result}
    (answers : respond s q e c = some (result, t)) : Stays s t := by
  cases respond_responds answers with
  | connected client => exact ⟨List.suffix_cons _ _, id⟩
  | watching => exact ⟨List.suffix_refl _, fun _ => rfl⟩
  -- no other call touches the clients or the watch
  | _ => exact .of_eq rfl rfl

theorem background_stays {s t : Env} {b : Background} (moves : background s b = some t) :
    Stays s t := by
  unfold background at moves
  split at moves <;> obtain ⟨_, ⟨⟩⟩ :=
    Option.ite_none_right_eq_some.mp moves <;> exact .of_eq rfl rfl

theorem stays {w w' : State} (h : life.Reachable w) (run : life.Runs w w') :
    Stays w.env w'.env := by
  refine h.run_rel (R := fun w w' => Stays w.env w'.env) (fun _ => .refl _)
    (fun h h' => ⟨h.clients.trans h'.clients, h'.watching ∘ h.watching⟩) ?_ run
  intro w mv w' _ step
  cases machine.stepped step with
  | arrive taken =>
    obtain ⟨_, ⟨⟩⟩ := Option.ite_none_left_eq_some.mp taken
    exact .of_eq rfl rfl
  | @go i _ q _ _ _ _ _ answers => exact respond_stays (q := (i, q)) answers
  | background moves => exact background_stays moves

/-- **Lifetimes.** In every run of either process a request, a call or a worker finds open what it
uses, unless it is an HTTP request that was left when its server stopped; the watch on the limit may
find the coordinator closed. What is closed is what was opened last, and when `run` returns, on any
of its paths, all that has a closer is closed and no server has anybody at work but such requests.
The clients that nothing closes stay open for good, and the watch at work. -/
theorem closed_after_last_use {w : State} (h : life.Reachable w) :
    (∀ u ∈ w.env.uses, u.live = false →
      u.user = .server .http ∧ w.env.left = true ∨ u.user = .watch ∧ u.resource = .coordinator) ∧
    (∀ c ∈ w.env.closes, c.2.head? = some c.1) ∧
    (∀ p ok, (p, .ret ok) ∈ w.procs →
      w.env.live = [] ∧ ∀ r, 0 < w.env.users r → r = .http ∧ w.env.left = true) ∧
    ∀ w', life.Runs w w' →
      w.env.clients <:+ w'.env.clients ∧ (w.env.watching = true → w'.env.watching = true) := by
  obtain ⟨modes, owned, tracks⟩ := life_tracks h
  refine ⟨owned.sound.uses, owned.sound.closes, fun p ok returned => ?_, fun w' run => ?_⟩
  · have closed : w.env.live = [] := by
      obtain ⟨i, found⟩ := List.mem_iff_getElem?.mp returned
      have entry := Rows.forall₂_getElem? tracks i
      rw [found] at entry
      generalize follows : modes[i]? = mode at entry
      obtain @⟨mode, _, rfl⟩ := entry
      have mem := List.mem_of_getElem? follows
      rw [owned.modes] at mem
      by_cases started : w.env.started = true
      · simpa [started, eq_comm] using mem
      · simp [started] at mem
    refine ⟨closed, fun r busy => ?_⟩
    simpa [closed] using owned.sound.served r busy
  · exact ⟨(stays h run).clients, (stays h run).watching⟩

/-- The app with etcd, the audit log and a database is told to stop while a request is running. The
deadline of `Shutdown` passes, everything is closed, and then the request asks the database and the
watch etcd. -/
def overdue : List (Move Process Choice Background) :=
  [.arrive (.app true), .go 0 (.opened .absent), .go 0 (.opened .opened), .go 0 (.opened .opened),
    .go 0 (.opened .absent),
    .go 0 (.ok true), .go 0 (.opened .opened), .go 0 (.opened .absent), .go 0 (.ok true),
    .go 0 (.opened .absent),
    .go 0 (.opened .absent), .go 0 (.opened .absent), .go 0 (.opened .absent), .go 0 (.ok true),
    .go 0 (.ok true),
    .go 0 (.ok true), .go 0 (.ok true), .background (.begin .http), .go 0 (.ok true),
    .go 0 (.ok false), .go 0 (.ok true),
    .go 0 (.ok true), .go 0 (.ok true), .go 0 (.ok true), .background (.use .http .store),
    .background .watch]

theorem closed_after_last_use_overdue :
    ∃ w, life.Reachable w ∧ w.procs = [(.app true, .ret false)] ∧
    w.env.uses = [⟨.watch, .coordinator, false⟩, ⟨.server .http, .store, false⟩] ∧
    w.env.left = true ∧ w.env.live = [] ∧
    w.env.clients = [.audit] ∧ ∀ w', life.Runs w w' → w'.env.watching = true := by
  have replayed : ∃ w, System.replay machine.step
      ⟨⟨false, [], [], fun _ => [], fun _ => 0, false, false, [], []⟩, [], []⟩ overdue = some w ∧
      w.procs = [(.app true, .ret false)] ∧
      w.env.uses = [⟨.watch, .coordinator, false⟩, ⟨.server .http, .store, false⟩] ∧
      w.env.clients = [.audit] ∧
      w.env.watching = true := ⟨_, rfl, rfl, rfl, rfl, rfl⟩
  obtain ⟨w, run, returned, uses, clients, watching⟩ := replayed
  have reached : life.Reachable w :=
    ⟨_, ⟨⟨rfl, rfl, rfl, fun _ => rfl, rfl, rfl, rfl, rfl⟩, rfl, rfl⟩, System.Runs.of_replay run⟩
  obtain ⟨found, -, ended, onward⟩ := closed_after_last_use reached
  have left : w.env.left = true := by
    rcases found ⟨.server .http, .store, false⟩ (by simp [uses]) rfl with ⟨_, left⟩ | ⟨⟨⟩, _⟩
    exact left
  exact ⟨w, reached, returned, uses, left,
    (ended (.app true) false (by simp [returned])).1, clients,
    fun w' more => (onward w' more).2 watching⟩

end OtusApp.Lifecycle
