import OtusApp.Blobstore.Startup

/-!
# The race for the bucket

Unlike `ensure` of the search index, `blobstore.New` takes every error of `MakeBucket` for a
failure. So of instances that start at once over an empty store, one that sees no bucket and comes
second is refused, and goes on without S3 although all of its calls were answered. That is the only
such case; an instance that has a store has a bucket, with versioning unless its own
`EnableVersioning` has failed.
-/

namespace OtusApp.Blobstore.Startup

open Program Transition

variable {bucket : String} {s t : Store}

/-- How far an instance has come. -/
inductive Stand
  | looking
  | missing
  | ready
  | done
  | warned
  | refused
  | gone
deriving DecidableEq

/-- `New` step by step. -/
def creating (bucket : String) : Protocol Call Call.Result Stand
  | .looking, .bucketExists b => if b = bucket then some fun (found : Option Bool) =>
      found.elim .gone fun there => if there then .ready else .missing else none
  | .missing, .makeBucket b =>
    if b = bucket then some fun (ok : Bool) => if ok then .ready else .refused else none
  | .ready, .enableVersioning b =>
    if b = bucket then some fun (ok : Bool) => if ok then .done else .warned else none
  | _, _ => none

/-- With which result an instance ends where. -/
def Ended (m : Stand) (ok : Bool) : Prop :=
  if ok then m = .done ∨ m = .warned else m = .refused ∨ m = .gone

theorem versioning_follows : (versioning bucket).Follows (creating bucket) Ended .ready := by
  refine ⟨_, if_pos rfl, fun (ok : Bool) => ?_⟩
  cases ok with
  | true => exact .inl rfl
  | false => exact .inr rfl

theorem new_follows : (new bucket).Follows (creating bucket) Ended .looking := by
  refine ⟨_, if_pos rfl, fun (found : Option Bool) => ?_⟩
  cases found with
  | none => exact .inr rfl
  | some there =>
    cases there with
    | true => exact versioning_follows
    | false =>
      refine ⟨_, if_pos rfl, fun (ok : Bool) => ?_⟩
      cases ok with
      | false => exact .inl rfl
      | true => exact versioning_follows

/-- What is so where an instance stands. -/
def Holds (bucket : String) (s : Store) (i : Nat) : Stand → Prop
  | .looking | .missing => s.buckets bucket ≠ some i ∧ (i, .makeBucket bucket) ∉ s.sent
  | .ready => (s.buckets bucket).isSome
  | .done => (s.buckets bucket).isSome ∧ bucket ∈ s.versioned
  | .warned => (s.buckets bucket).isSome ∧ i ∈ s.warned
  | .refused => i ∈ s.failed ∨ ∃ j, j ≠ i ∧ s.buckets bucket = some j
  | .gone => i ∈ s.failed

/-- Nothing is taken back. -/
structure Grows (s t : Store) : Prop where
  buckets : Registry.Le s.buckets t.buckets
  versioned : s.versioned ⊆ t.versioned
  failed : s.failed ⊆ t.failed
  warned : s.warned ⊆ t.warned

/-- An instance stands where it stood, if no bucket is made in its name before it has asked for
one. -/
theorem Holds.grow {i : Nat} {m : Stand} (h : Holds bucket s i m) (grows : Grows s t)
    (unmade : Holds bucket s i .missing → Holds bucket t i .missing) : Holds bucket t i m := by
  cases m with
  | looking | missing => exact unmade h
  | ready => exact grows.buckets.isSome h
  | done => exact ⟨grows.buckets.isSome h.1, grows.versioned h.2⟩
  | warned => exact ⟨grows.buckets.isSome h.1, grows.warned h.2⟩
  | refused =>
    rcases h with failed | ⟨k, different, is⟩
    · exact .inl (grows.failed failed)
    · exact .inr ⟨k, different, grows.buckets _ _ is⟩
  | gone => exact grows.failed h

theorem made_effect {i j : Nat} {e : Call} {b : String} (is : (s.effect i e).buckets b = some j) :
    s.buckets b = some j ∨ j = i ∧ e = .makeBucket b := by
  cases e with
  | bucketExists b' => exact .inl is
  | makeBucket b' =>
    rcases Registry.create_cases is with old | ⟨rfl, rfl, _⟩
    · exact .inl old
    · exact .inr ⟨rfl, rfl⟩
  | enableVersioning b' =>
    rw [Store.effect] at is
    split at is <;> exact .inl is

theorem sent_effect (s : Store) (i : Nat) (e : Call) : (s.effect i e).sent = s.sent := by
  cases e with
  | bucketExists b | makeBucket b => rfl
  | enableVersioning b =>
    rw [Store.effect]
    split <;> rfl

theorem effect_grows (s : Store) (i : Nat) (e : Call) : Grows s (s.effect i e) := by
  cases e with
  | bucketExists b => exact ⟨.refl _, .refl _, .refl _, .refl _⟩
  | makeBucket b => exact ⟨Registry.create_le _ _ _, .refl _, .refl _, .refl _⟩
  | enableVersioning b =>
    rw [Store.effect]
    split
    · exact ⟨.refl _, List.subset_cons_self _ _, .refl _, .refl _⟩
    · exact ⟨.refl _, .refl _, .refl _, .refl _⟩

/-- What the move of an instance may do: what is new is that of the instance. -/
structure Moved (i : Nat) (s t : Store) : Prop extends Grows s t where
  made : ∀ b j, t.buckets b = some j → s.buckets b = some j ∨ j = i
  sent : ∀ x ∈ t.sent, x ∈ s.sent ∨ x.1 = i

namespace Moved

variable {i : Nat}

theorem effect {u : Store} (h : Moved i s u) (e : Call) : Moved i s (u.effect i e) where
  buckets := h.buckets.trans (effect_grows u i e).buckets
  versioned := List.Subset.trans h.versioned (effect_grows u i e).versioned
  failed := List.Subset.trans h.failed (effect_grows u i e).failed
  warned := List.Subset.trans h.warned (effect_grows u i e).warned
  made b j is := by
    rcases made_effect is with old | ⟨rfl, _⟩
    · exact h.made b j old
    · exact .inr rfl
  sent x mem := h.sent x (sent_effect u i e ▸ mem)

/-- The others stand where they stood. -/
theorem others {j : Nat} {m : Stand} (h : Moved i s t) (other : j ≠ i)
    (holds : Holds bucket s j m) : Holds bucket t j m := by
  refine holds.grow h.toGrows fun ⟨unmade, unsent⟩ => ⟨fun is => ?_, fun mem => ?_⟩
  · rcases h.made _ _ is with was | isI
    · exact unmade was
    · exact other isI
  · rcases h.sent _ mem with was | isI
    · exact unsent was
    · exact other isI

end Moved

theorem noted_moved (s : Store) (i : Nat) (e : Call) (fate : Fate) :
    Moved i s (s.noted i e fate) := by
  have sent : ∀ x ∈ (i, e) :: s.sent, x ∈ s.sent ∨ x.1 = i := by
    intro x mem
    rcases List.mem_cons.mp mem with rfl | old
    · exact .inr rfl
    · exact .inl old
  have made : ∀ b j, s.buckets b = some j → s.buckets b = some j ∨ j = i := fun _ _ is => .inl is
  have more : ∀ l : List Nat, l ⊆ i :: l := fun l => List.subset_cons_self i l
  cases fate with
  | done => exact ⟨⟨.refl _, .refl _, .refl _, .refl _⟩, made, sent⟩
  | failed | lost =>
    cases e with
    | bucketExists b | makeBucket b => exact ⟨⟨.refl _, .refl _, more _, .refl _⟩, made, sent⟩
    | enableVersioning b => exact ⟨⟨.refl _, .refl _, .refl _, more _⟩, made, sent⟩

/-- A call that the protocol admits moves the caller on. -/
theorem respond_holds {i : Nat} {m : Stand} {e : Call} {fate : Fate} {r : e.Result}
    {onward : e.Result → Stand} (h : Holds bucket s i m)
    (admitted : creating bucket m e = some onward)
    (answers : respond s (i, ()) e fate = some (r, t)) :
    Moved i s t ∧ Holds bucket t i (onward r) := by
  have noted := noted_moved s i e fate
  cases e with
  | bucketExists b =>
    cases m with
    | looking =>
      obtain ⟨rfl, ⟨⟩⟩ := Option.ite_none_right_eq_some.mp admitted
      cases fate with
      | done =>
        cases answers
        refine ⟨noted, ?_⟩
        by_cases there : (s.buckets b).isSome
        · simp [there, Holds, Store.noted]
        · simpa [there, Holds, Store.noted] using h
      | failed | lost =>
        cases answers
        exact ⟨noted, List.mem_cons_self⟩
    | _ => cases admitted
  | makeBucket b =>
    cases m with
    | missing =>
      obtain ⟨rfl, ⟨⟩⟩ := Option.ite_none_right_eq_some.mp admitted
      cases fate with
      | done =>
        simp only [respond] at answers
        split at answers
        · next there =>
          cases answers
          obtain ⟨j, is⟩ := Option.isSome_iff_exists.mp there
          refine ⟨noted, .inr ⟨j, ?_, is⟩⟩
          rintro rfl
          exact h.1 is
        · cases answers
          exact ⟨noted.effect _, Registry.create_isSome _ _ _⟩
      | failed =>
        cases answers
        exact ⟨noted, .inl List.mem_cons_self⟩
      | lost =>
        cases answers
        exact ⟨noted.effect _, .inl List.mem_cons_self⟩
    | _ => cases admitted
  | enableVersioning b =>
    cases m with
    | ready =>
      obtain ⟨rfl, ⟨⟩⟩ := Option.ite_none_right_eq_some.mp admitted
      cases fate with
      | done =>
        cases answers
        have there : ((s.noted i (.enableVersioning b) .done).buckets b).isSome := h
        refine ⟨noted.effect _, ?_⟩
        rw [Store.effect, if_pos there]
        exact ⟨there, List.mem_cons_self⟩
      | failed =>
        cases answers
        exact ⟨noted, h, List.mem_cons_self⟩
      | lost =>
        cases answers
        have there : ((s.noted i (.enableVersioning b) .lost).buckets b).isSome := h
        refine ⟨noted.effect _, ?_⟩
        rw [Store.effect, if_pos there]
        exact ⟨there, List.mem_cons_self⟩
    | _ => cases admitted

/-- Each instance stands where its calls have led it, and what was sent or made is that of an
instance. -/
structure Standing (bucket : String) (s : Store) (stands : List Stand) : Prop where
  holds : ∀ (i : Nat) m, stands[i]? = some m → Holds bucket s i m
  made : ∀ b i, s.buckets b = some i → i < stands.length
  sent : ∀ x ∈ s.sent, x.1 < stands.length

theorem standing {w : State} (h : (starting bucket).Reachable w) :
    ∃ stands, Standing bucket w.env stands ∧
    Machine.Tracks (creating bucket) (fun _ => Ended) stands w.procs := by
  refine Machine.tracked (m := machine bucket) (fun _ => .looking) (Standing bucket) ?_
    (fun _ _ _ => new_follows) ?_ ?_ ?_
    h.unrestricted
  · rintro s rfl
    exact ⟨by simp, nofun, by simp [empty]⟩
  · rintro w q t stands - h taken
    cases taken
    refine ⟨fun i m entry => ?_, fun b i is => ?_, fun x mem => ?_⟩
    · rcases Rows.getElem?_concat entry with old | ⟨rfl, rfl⟩
      · exact h.holds i m old
      · refine ⟨fun is => ?_, fun mem => ?_⟩
        · exact absurd (h.made _ _ is) (Nat.lt_irrefl _)
        · exact absurd (h.sent _ mem) (Nat.lt_irrefl _)
    · have := h.made b i is
      simp only [List.length_append]
      omega
    · have := h.sent x mem
      simp only [List.length_append]
      omega
  · intro w i fate q e k r t stands m onward _ _ _ h entry admitted answers
    have bound := (List.getElem?_eq_some_iff.mp entry).1
    obtain ⟨moved, mine⟩ := respond_holds (h.holds i m entry) admitted answers
    refine ⟨fun j m' found => ?_, fun b j is => ?_, fun x mem => ?_⟩
    · by_cases isI : i = j
      · subst isI
        cases Rows.getElem?_set_some found
        exact mine
      · rw [List.getElem?_set_ne isI] at found
        exact moved.others (Ne.symm isI) (h.holds j m' found)
    · rw [List.length_set]
      rcases moved.made b j is with old | rfl
      · exact h.made b j old
      · exact bound
    · rw [List.length_set]
      rcases moved.sent x mem with old | rfl
      · exact h.sent x old
      · exact bound
  · intro w k t stands _ _ h moves
    obtain ⟨⟨i, e⟩, found, rfl⟩ := Option.map_eq_some_iff.mp moves
    have mem := List.mem_of_getElem? found
    refine ⟨fun j m entry => ?_, fun b j is => ?_, fun x sent =>
      h.sent x (sent_effect _ i e ▸ sent)⟩
    · refine (h.holds j m entry).grow
        (effect_grows _ i e) fun ⟨unmade, unsent⟩ => ⟨fun is => ?_, ?_⟩
      · rcases made_effect is with old | ⟨rfl, rfl⟩
        · exact unmade old
        · exact unsent mem
      · rwa [sent_effect]
    · rcases made_effect is with old | ⟨rfl, _⟩
      · exact h.made b j old
      · exact h.sent _ mem

/-- **The race for the bucket.** In every run, an instance that `New` gave a store finds the bucket,
with versioning unless its own `EnableVersioning` has failed. One that `New` refused has met a
failure of `BucketExists` or `MakeBucket`, or another instance has made the bucket. -/
theorem bucket_race {w : State} (h : (starting bucket).Reachable w) {i : Nat} {q : Unit} {ok : Bool}
    (returned : w.procs[i]? = some (q, .ret ok)) :
    (ok = true → (w.env.buckets bucket).isSome ∧ (bucket ∈ w.env.versioned ∨ i ∈ w.env.warned)) ∧
    (ok = false → i ∈ w.env.failed ∨ ∃ j, j ≠ i ∧ j < w.procs.length ∧
      w.env.buckets bucket = some j) := by
  obtain ⟨stands, standing, tracks⟩ := standing h
  have entry := Rows.forall₂_getElem? tracks i
  rw [returned] at entry
  generalize found : stands[i]? = m at entry
  obtain @⟨m, _, ended⟩ := entry
  have holds := standing.holds i m found
  constructor
  · rintro rfl
    rcases ended with rfl | rfl
    · exact ⟨holds.1, .inl holds.2⟩
    · exact ⟨holds.1, .inr holds.2⟩
  · rintro rfl
    rcases ended with rfl | rfl
    · refine holds.imp_right fun ⟨j, other, is⟩ => ⟨j, other, ?_, is⟩
      rw [← List.Forall₂.length_eq tracks]
      exact standing.made bucket j is
    · exact .inl holds

/-- Two instances look for the bucket before either has made it. -/
def bothLook : List (Move Unit Fate Nat) :=
  [.arrive (), .arrive (), .go 0 .done, .go 1 .done, .go 0 .done, .go 1 .done, .go 0 .done]

/-- The second one is refused, though nothing has failed. -/
theorem bucket_race_second :
    ∃ w, (starting "otus-files").Reachable w ∧ w.procs = [((), .ret true), ((), .ret false)] ∧
    w.env.failed = [] ∧ ∃ j, j ≠ 1 ∧ j < w.procs.length ∧ w.env.buckets "otus-files" = some j := by
  have replayed : ∃ w, System.replay (machine "otus-files").step ⟨empty, [], []⟩ bothLook = some w ∧
      w.procs = [((), .ret true), ((), .ret false)] ∧ w.env.failed = [] := ⟨_, rfl, rfl, rfl⟩
  obtain ⟨w, run, procs, failed⟩ := replayed
  have reached : (starting "otus-files").Reachable w :=
    ⟨_, ⟨rfl, rfl, rfl⟩, System.Runs.of_replay run⟩
  have second : w.procs[1]? = some ((), .ret false) := by rw [procs]; rfl
  rcases (bucket_race reached second).2 rfl with has | made
  · simp [failed] at has
  · exact ⟨w, reached, procs, failed, made⟩

end OtusApp.Blobstore.Startup
