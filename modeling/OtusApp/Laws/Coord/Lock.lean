import OtusApp.App.Startup
import OtusApp.Lib.Protocol

/-!
# Who holds the lock

An instance that was given the lock has the oldest key, as long as its lease lives: nobody else is
given the lock before that key is gone. So two instances are in `storage.New` at once only if one of
them went ahead without a session, or its lease has expired under it.
-/

namespace OtusApp.Coord

open Program Transition Startup

/-- Where an instance stands towards the lock. -/
inductive Stand
  | outside
  | opened
  | queued
  | locked
  | bare
  | leaving
  | done

/-- The pool is used under the lock, or by an instance that has no session. -/
def guarded : Protocol Startup.Call Startup.Call.Result Stand
  | .outside, .etcd .newSession => some fun (ok : Bool) => if ok then .opened else .bare
  | .opened, .etcd .tryAcquire => some fun (a : Acquired) =>
      match a with
      | .owner => .locked
      | .waiting => .queued
      | .failed => .leaving
  | .queued, .etcd .waitDeletes => some fun (ok : Bool) => if ok then .locked else .leaving
  | .locked, .etcd .unlock => some fun _ => .leaving
  | .leaving, .etcd .close => some fun _ => .done
  | .locked, .pool _ => some fun _ => .locked
  | .bare, .pool _ => some fun _ => .bare
  | _, _ => none

/-- Calls to the pool leave an instance where it may make them. -/
theorem lifted_follows {α : Type} (stand : Stand)
    (stays : ∀ e, guarded stand (.pool e) = some fun _ => stand) (x : Storage.Migration.Code α) :
    (x.lift Startup.Call.pool fun _ r => r : Startup.Code α).Follows guarded
      (fun m _ => m = stand) stand := by
  induction x with
  | ret a => rfl
  | call e k ih => exact ⟨_, stays e, fun r => ih r⟩

theorem lock_follows :
    (lock etcd).Follows guarded (fun m ok => m = if ok then .locked else .leaving) .opened := by
  refine ⟨_, rfl, fun (acquired : Acquired) => ?_⟩
  cases acquired with
  | owner => rfl
  | waiting => exact ⟨_, rfl, fun (ok : Bool) => by cases ok <;> rfl⟩
  | failed => rfl

theorem openStore_follows (targets : List String) :
    (openStore true targets).Follows guarded (fun _ _ => True) .outside := by
  refine ⟨_, rfl, fun (session : Bool) => ?_⟩
  cases session with
  | false => exact (lifted_follows .bare (fun _ => rfl) _).mono fun _ _ _ => trivial
  | true =>
    refine lock_follows.bind ?_
    rintro _ ok rfl
    cases ok with
    | false => exact ⟨_, rfl, fun _ => trivial⟩
    | true =>
      refine (lifted_follows .locked (fun _ => rfl) _).bind ?_
      rintro _ result rfl
      exact ⟨_, rfl, fun _ => ⟨_, rfl, fun _ => trivial⟩⟩

/-- Who is under the lock has the oldest key or has lost the lease, and who went ahead without it
was given no session. -/
structure Held (s : Locks) (stands : List Stand) : Prop where
  locked : ∀ i : Nat, stands[i]? = some .locked → s.keys.head? = some i ∨ i ∈ s.expired
  bare : ∀ i : Nat, stands[i]? = some .bare → i ∈ s.refused

/-- Deleting a key leaves the oldest one where it is, unless it is that key. -/
theorem head?_delete {s : Locks} {i j : Nat} (other : j ≠ i) (oldest : s.keys.head? = some j) :
    (s.delete i).keys.head? = some j := by
  obtain ⟨rest, is⟩ := List.head?_eq_some_iff.mp oldest
  show (s.keys.filter (· ≠ i)).head? = some j
  rw [is, List.filter_cons_of_pos (p := (· ≠ i)) (decide_eq_true other)]
  rfl

theorem head?_put {s : Locks} (i : Nat) {j : Nat} (oldest : s.keys.head? = some j) :
    (s.put i).keys.head? = some j := by
  rw [Locks.put]
  split
  · obtain ⟨rest, is⟩ := List.head?_eq_some_iff.mp oldest
    show (s.keys ++ [i]).head? = some j
    rw [is]
    rfl
  · exact oldest

theorem empty_of_owner {s : Locks} (h : s.place = .owner) : s.keys = [] := by
  by_contra full
  rw [Locks.place, if_neg full] at h
  cases h

/-- A step of caller `i` to where it is not under the lock by itself. -/
theorem Held.step {s t : Locks} {stands : List Stand} {i : Nat} {new : Stand} (h : Held s stands)
    (mine : new = .locked → t.keys.head? = some i ∨ i ∈ t.expired)
    (unaided : new = .bare → i ∈ t.refused)
    (keys : ∀ j, j ≠ i → s.keys.head? = some j → t.keys.head? = some j)
    (expired : s.expired ⊆ t.expired) (refused : s.refused ⊆ t.refused) :
    Held t (stands.set i new) where
  locked j entry := by
    by_cases isI : i = j
    · subst isI
      exact mine ((Rows.getElem?_set_some entry).symm)
    · rw [List.getElem?_set_ne isI] at entry
      exact (h.locked j entry).imp (keys j (Ne.symm isI)) fun gone => expired gone
  bare j entry := by
    by_cases isI : i = j
    · subst isI
      exact unaided ((Rows.getElem?_set_some entry).symm)
    · rw [List.getElem?_set_ne isI] at entry
      exact refused (h.bare j entry)

/-- What the call of an instance that follows the protocol does to the lock. -/
theorem Held.respond {s t : Locks} {stands : List Stand} {i : Nat} {stand : Stand} {e : LockCall}
    {c : LockChoice} {r : e.Result} {onward : e.Result → Stand} (h : Held s stands)
    (admitted : guarded stand (.etcd e) = some onward) (answers : s.respond i e c = some (r, t)) :
    Held t (stands.set i (onward r)) := by
  -- to a stand without the lock, and the key of the caller may be gone
  have left : ∀ {u : Locks} {new : Stand}, u = s ∨ u = s.delete i ∨ u = s.revoke i →
      new ≠ .locked → new ≠ .bare →
        Held u (stands.set i new) := by
    rintro u new (rfl | rfl | rfl) unlocked aided
    · exact h.step (absurd · unlocked) (absurd · aided) (fun _ _ is => is) (.refl _) (.refl _)
    · exact h.step (absurd · unlocked) (absurd · aided) (fun _ => head?_delete) (.refl _) (.refl _)
    · exact h.step (absurd · unlocked) (absurd · aided) (fun _ => head?_delete) (.refl _) (.refl _)
  have put : ∀ {new : Stand}, (new = .locked → (s.put i).keys.head? = some i) → new ≠ .bare →
      Held (s.put i) (stands.set i new) := by
    intro new mine aided
    have more : (s.put i).expired = s.expired ∧ (s.put i).refused = s.refused := by
      rw [Locks.put]
      split <;> exact ⟨rfl, rfl⟩
    exact h.step (fun is => .inl (mine is)) (absurd · aided) (fun _ _ => head?_put i)
      (by rw [more.1]; exact .refl _) (by rw [more.2]; exact .refl _)
  cases e with
  | newSession =>
    cases stand with
    | outside =>
      cases admitted
      cases c with
      | done =>
        cases answers
        exact h.step nofun nofun (fun _ _ is => is) (.refl _) (.refl _)
      | failed effect =>
        cases answers
        exact h.step nofun (fun _ => List.mem_cons_self) (fun _ _ is => is) (.refl _)
          (List.subset_cons_self _ _)
    | opened | queued | locked | bare | leaving | done => cases admitted
  | tryAcquire =>
    cases stand with
    | opened =>
      cases admitted
      cases c with
      | done =>
        obtain ⟨lives, answers⟩ := Option.ite_none_right_eq_some.mp answers
        cases answers
        have first : s.place = .owner → (s.put i).keys.head? = some i := by
          intro owner
          rw [Locks.put, if_pos lives, empty_of_owner owner]
          rfl
        generalize s.place = acquired at first
        cases acquired with
        | owner => exact put (fun _ => first rfl) nofun
        | waiting => exact put nofun nofun
        | failed => exact put nofun nofun
      | failed effect =>
        cases answers
        cases effect with
        | true => exact put nofun nofun
        | false => exact left (.inl rfl) nofun nofun
    | outside | queued | locked | bare | leaving | done => cases admitted
  | waitDeletes =>
    cases stand with
    | queued =>
      cases admitted
      cases c with
      | done =>
        obtain ⟨oldest, answers⟩ := Option.ite_none_right_eq_some.mp answers
        cases answers
        exact h.step (fun _ => .inl oldest) nofun (fun _ _ is => is) (.refl _) (.refl _)
      | failed effect =>
        cases answers
        exact left (by cases effect <;> simp) nofun nofun
    | outside | opened | locked | bare | leaving | done => cases admitted
  | unlock =>
    cases stand with
    | locked =>
      cases admitted
      cases c with
      | done =>
        cases answers
        exact left (.inr (.inl rfl)) nofun nofun
      | failed effect =>
        cases answers
        exact left (by cases effect <;> simp) nofun nofun
    | outside | opened | queued | bare | leaving | done => cases admitted
  | close =>
    cases stand with
    | leaving =>
      cases admitted
      cases c with
      | done =>
        cases answers
        exact left (.inr (.inr rfl)) nofun nofun
      | failed effect =>
        cases answers
        exact left (by cases effect <;> simp) nofun nofun
    | outside | opened | queued | locked | bare | done => cases admitted

theorem Held.expire {s t : Locks} {stands : List Stand} {i : Nat} (h : Held s stands)
    (gone : s.expire i = some t) :
    Held t stands := by
  obtain ⟨_, same⟩ := Option.ite_none_right_eq_some.mp gone
  cases same
  refine ⟨fun j entry => ?_, h.bare⟩
  by_cases isI : j = i
  · subst isI
    exact .inr List.mem_cons_self
  · exact (h.locked j entry).imp (head?_delete isI) fun before => List.mem_cons_of_mem i before

/-- A call to the pool leaves the lock as it is. -/
theorem respond_pool {s t : Env} {i : Nat} {e : Storage.Migration.Call} {c : Startup.Choice}
    {r : Bool} (answers : respond s i (.pool e) c = some (r, t)) : t.locks = s.locks := by
  cases e with
  | sql e =>
    cases c with
    | sql c =>
      obtain ⟨_, _, same⟩ := Option.map_eq_some_iff.mp answers
      cases same
      rfl
    | lock c => cases answers
    | ok ok => cases answers
  | parseConfig | newWithConfig | ping | close =>
    cases c with
    | ok ok =>
      cases answers
      rfl
    | lock c => cases answers
    | sql c => cases answers

/-- Every instance stands somewhere towards the lock. -/
theorem held {c : Storage.Migration.Catalog} {w : Startup.State}
    (h : (startup true c).Reachable w) :
    ∃ stands, Held w.env.locks stands ∧
      Machine.Tracks guarded (fun _ _ _ => True) stands w.procs := by
  refine Machine.tracked (fun _ => Stand.outside) (fun s stands => Held s.locks stands)
    ?_ ?_ ?_ ?_ ?_
    h.unrestricted
  · rintro s rfl
    exact ⟨nofun, nofun⟩
  · intro w targets _
    exact openStore_follows targets
  · rintro w targets t stands - held ⟨⟩
    refine ⟨fun i entry => ?_, fun i entry => ?_⟩
    · rcases Rows.getElem?_concat entry with earlier | ⟨_, new⟩
      · exact held.locked i earlier
      · cases new
    · rcases Rows.getElem?_concat entry with earlier | ⟨_, new⟩
      · exact held.bare i earlier
      · cases new
  · intro w i c targets e k r t stands stand onward _ _ runs held entry admitted answers
    cases e with
    | etcd e =>
      cases c with
      | lock c =>
        obtain ⟨⟨r', locks⟩, answered, same⟩ := Option.map_eq_some_iff.mp answers
        cases same
        exact held.respond admitted answered
      | sql c => cases answers
      | ok ok => cases answers
    | pool e =>
      have locks : t.locks = w.env.locks := respond_pool answers
      -- the instance stays where it stands
      have stays : onward r = stand := by
        cases stand with
        | locked | bare =>
          cases admitted
          rfl
        | outside | opened | queued | leaving | done => cases admitted
      rw [locks, stays, ← (List.getElem?_eq_some_iff.mp entry).2, List.set_getElem_self]
      exact held
  · intro w b t stands _ _ held moves
    cases b with
    | expire i =>
      obtain ⟨locks, gone, rfl⟩ := Option.map_eq_some_iff.mp moves
      exact held.expire gone
    | db b =>
      obtain ⟨db, _, rfl⟩ := Option.map_eq_some_iff.mp moves
      exact held

/-- An instance that is about to use its pool is under the lock or has no session. -/
theorem stands_of_pool {stand : Stand} {e : Storage.Migration.Call}
    {k : Bool → Startup.Code (Option Storage.Migration.Postgres)}
    (h : (Prog.call (.pool e) k : Startup.Code _).Follows guarded (fun _ _ => True) stand) :
    stand = .locked ∨ stand = .bare := by
  obtain ⟨onward, admitted, _⟩ := h
  cases stand with
  | locked => exact .inl rfl
  | bare => exact .inr rfl
  | outside | opened | queued | leaving | done => cases admitted

/-- Two instances use their pools at once in `storage.New` only if one of them was refused a
session, or its lease has expired. -/
theorem one_migrates_at_a_time {c : Storage.Migration.Catalog} {w : Startup.State}
    (h : (startup true c).Reachable w) {i j : Nat} (other : i ≠ j) {targets targets' : List String}
    {e e' : Storage.Migration.Call} {k k' : Bool → Startup.Code (Option Storage.Migration.Postgres)}
    (first : w.procs[i]? = some (targets, .call (.pool e) k))
    (second : w.procs[j]? = some (targets', .call (.pool e') k')) :
    ∃ n, (n = i ∨ n = j) ∧ (n ∈ w.env.locks.refused ∨ n ∈ w.env.locks.expired) := by
  obtain ⟨stands, held, tracks⟩ := held h
  have stand : ∀ {n : Nat} {targets : List String} {e : Storage.Migration.Call}
      {k : Bool → Startup.Code (Option Storage.Migration.Postgres)},
      w.procs[n]? = some (targets, .call (.pool e) k) →
      w.env.locks.keys.head? = some n ∨ n ∈ w.env.locks.refused ∨ n ∈ w.env.locks.expired := by
    intro n targets e k runs
    have entry := Rows.forall₂_getElem? tracks n
    rw [runs] at entry
    generalize found : stands[n]? = stand at entry
    obtain @⟨stand, _, follows⟩ := entry
    rcases stands_of_pool follows with rfl | rfl
    · exact (held.locked n found).imp_right .inr
    · exact .inr (.inl (held.bare n found))
  rcases stand first with oldest | without
  · rcases stand second with oldest' | without
    · exact absurd (Option.some.inj (oldest.symm.trans oldest')) other
    · exact ⟨j, .inr rfl, without⟩
  · exact ⟨i, .inl rfl, without⟩

/-- The lease of the first instance expires while it opens the database, and the second is given the
lock. -/
def handover : List (Move (List String) Startup.Choice Startup.Background) :=
  [.arrive [], .arrive [], .go 0 (.lock .done), .go 0 (.lock .done), .go 1 (.lock .done),
    .background (.expire 0),
    .go 1 (.lock .done)]

theorem one_migrates_at_a_time_expired : ∃ w, (startup true ⟨none, false, false⟩).Reachable w ∧
    w.env.locks.expired = [0] ∧ ∃ n, (n = 0 ∨ n = 1) ∧
    (n ∈ w.env.locks.refused ∨ n ∈ w.env.locks.expired) := by
  have replayed : ∃ w k k', System.replay (machine true).step
    ⟨⟨.empty, .fresh ⟨none, false, false⟩⟩, [], []⟩ handover = some w ∧
      w.env.locks.expired = [0] ∧ w.procs[0]? = some ([], .call (.pool .parseConfig) k) ∧
      w.procs[1]? = some ([], .call (.pool .parseConfig) k') := ⟨_, _, _, rfl, rfl, rfl, rfl⟩
  obtain ⟨w, k, k', run, expired, first, second⟩ := replayed
  have reached : (startup true ⟨none, false, false⟩).Reachable w :=
    ⟨_, ⟨rfl, rfl, rfl⟩, System.Runs.of_replay run⟩
  exact ⟨w, reached, expired, one_migrates_at_a_time reached Nat.zero_ne_one first second⟩

end OtusApp.Coord
