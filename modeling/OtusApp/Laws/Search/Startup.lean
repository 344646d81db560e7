import OtusApp.Search.Startup

/-!
# Every index has its mapping

An instance writes documents only after `New`, and `New` returns without an error only when both
indices are there. So no document ever creates an index: whatever the instances do at once, each
index was created with the mapping of its name, though nothing decides which of them creates it. The
race between `Exists` and `Create` is no failure: `New` returns an error only to an instance one of
whose calls has failed.
-/

namespace OtusApp.Search.Startup

open Program Transition

variable {cfg : Config} {s t : Elastic}

/-! ## What an instance knows -/

/-- The mapping of an index. -/
def Config.mapping (cfg : Config) (name : String) : Option Mapping :=
  if name = cfg.msgIndex then some messagesMapping
  else if name = cfg.fileIndex then some filesMapping
  else none

/-- The index that a call is about. -/
def Call.name : Call → String
  | .exists_ name => name
  | .create name _ => name
  | .index name _ => name

/-- Whether an answer tells that the index is there. -/
def Call.tells : Call → Except String Answer → Bool
  | .exists_ _, .ok a => decide (a.status = 200)
  | .create _ _, .ok a => !a.isError || alreadyExists (readBody a.body)
  | _, _ => false

/-- The indices that an instance was told of, and whether one of its calls has failed. -/
structure Stand where
  known : List String
  failed : Bool

/-- Where an answer leads. -/
def Stand.onward (m : Stand) (e : Call) (r : Except String Answer) : Stand :=
  ⟨if e.tells r then e.name :: m.known else m.known, m.failed || e.fails r⟩

/-- What may be called: an index is created with its mapping, and a document goes where the index is
known. -/
def Stand.allows (cfg : Config) (m : Stand) : Call → Bool
  | .exists_ _ => true
  | .create name mapping => decide (cfg.mapping name = some mapping)
  | .index name _ => decide (name ∈ m.known)

/-- The protocol of an instance. -/
def ensuring (cfg : Config) : Protocol Call (fun _ => Except String Answer) Stand :=
  fun m e => if m.allows cfg e then some (m.onward e) else none

/-- What the code learns on the way from one stand to another. -/
structure Stand.Le (m m' : Stand) : Prop where
  known : m.known ⊆ m'.known
  failed : m.failed = true → m'.failed = true

theorem Stand.Le.trans {m m' m'' : Stand} (h : m.Le m') (h' : m'.Le m'') : m.Le m'' :=
  ⟨List.Subset.trans h.known h'.known, fun failed => h'.failed (h.failed failed)⟩

theorem Stand.le_onward (m : Stand) (e : Call) (r : Except String Answer) :
    m.Le (m.onward e r) := by
  refine ⟨?_, fun failed => by simp [onward, failed]⟩
  simp only [onward]
  split
  · exact List.subset_cons_self _ _
  · exact List.Subset.refl _

theorem Stand.known_of_tells {m : Stand} {e : Call} {r : Except String Answer}
    (h : e.tells r = true) :
    e.name ∈ (m.onward e r).known := by
  simp [onward, h]

theorem Stand.failed_of_fails {m : Stand} {e : Call} {r : Except String Answer}
    (h : e.fails r = true) :
    (m.onward e r).failed = true := by
  simp [onward, h]

/-- The answer to `Create` tells that the index is there, or is a failure. -/
theorem created_cases (name : String) (mapping : Mapping) (r : Except String Answer) :
    (created name r = none → (Call.create name mapping).tells r = true) ∧
      (created name r ≠ none → (Call.create name mapping).fails r = true) := by
  cases r with
  | error err => simp [created, Call.fails]
  | ok create =>
    by_cases refused : create.isError = true
    · by_cases already : alreadyExists (readBody create.body) = true
      · simp [created, Call.tells, refused, already]
      · simp [created, Call.fails, refused, already]
    · simp [created, Call.tells, refused]

/-- `ensure` ends with the index known, or with a failure. -/
theorem ensure_follows {name : String} {mapping : Mapping} (maps : cfg.mapping name = some mapping)
    (m : Stand) :
    (ensure name mapping).Follows (ensuring cfg)
      (fun m' err => m.Le m' ∧ (err = none → name ∈ m'.known) ∧
        (err ≠ none → m'.failed = true)) m := by
  refine ⟨_, if_pos rfl, fun r => ?_⟩
  have le := m.le_onward (.exists_ name) r
  cases r with
  | error err => exact ⟨le, by simp, fun _ => Stand.failed_of_fails rfl⟩
  | ok res =>
    show Prog.Follows _ _ (if res.status = 200 then _ else _) _
    by_cases found : res.status = 200
    · rw [if_pos found]
      exact ⟨le, fun _ =>
        Stand.known_of_tells (e := .exists_ name) (by simp [Call.tells, found]), by simp⟩
    · rw [if_neg found]
      refine ⟨_, if_pos (by simp [Stand.allows, maps]), fun r =>
        ⟨le.trans (Stand.le_onward _ _ r), ?_, ?_⟩⟩
      · exact fun noError => Stand.known_of_tells (e := .create name mapping)
          ((created_cases name mapping r).1 noError)
      · exact fun hasError => Stand.failed_of_fails ((created_cases name mapping r).2 hasError)

/-- What is asked of the end of an instance. -/
def Ended (cfg : Config) (m : Stand) (err : Option String) : Prop :=
  (err = none → cfg.msgIndex ∈ m.known ∧ cfg.fileIndex ∈ m.known) ∧ (err ≠ none → m.failed = true)

theorem new_follows (distinct : cfg.msgIndex ≠ cfg.fileIndex) (m : Stand) :
    (new cfg).Follows (ensuring cfg) (Ended cfg) m := by
  have messages : cfg.mapping cfg.msgIndex = some messagesMapping := by simp [Config.mapping]
  have files : cfg.mapping cfg.fileIndex = some filesMapping := by
    simp [Config.mapping, Ne.symm distinct]
  refine (ensure_follows messages m).bind fun m err ⟨_, ok, failed⟩ => ?_
  cases err with
  | some err => exact ⟨by simp, fun _ => failed (by simp)⟩
  | none =>
    refine (ensure_follows files m).mono fun m' err ⟨le, ok', failed⟩ => ?_
    exact ⟨fun none => ⟨le.known (ok rfl), ok' none⟩, failed⟩

theorem indexAll_follows (docs : List Doc) (m : Stand)
    (both : cfg.msgIndex ∈ m.known ∧ cfg.fileIndex ∈ m.known) :
    (indexAll cfg docs).Follows (ensuring cfg) (fun m' _ => m.Le m') m := by
  induction docs generalizing m with
  | nil => exact ⟨List.Subset.refl _, id⟩
  | cons doc rest ih =>
    have goes_on : ∀ e r, (indexAll cfg rest).Follows (ensuring cfg) (fun m' _ => m.Le m')
        (m.onward e r) := by
      intro e r
      have le := m.le_onward e r
      exact (ih (m.onward e r) ⟨le.known both.1, le.known both.2⟩).mono fun m' _ le' => le.trans le'
    cases doc with
    | message id => exact ⟨_, if_pos (by simp [Stand.allows, both.1]), fun r => goes_on _ r⟩
    | file id => exact ⟨_, if_pos (by simp [Stand.allows, both.2]), fun r => goes_on _ r⟩

theorem instance_follows (distinct : cfg.msgIndex ≠ cfg.fileIndex) (docs : List Doc) :
    (instance_ cfg docs).Follows (ensuring cfg) (Ended cfg) ⟨[], false⟩ := by
  refine (new_follows distinct _).bind fun m err ended => ?_
  cases err with
  | some err => exact ended
  | none =>
    refine (indexAll_follows docs m (ended.1 rfl)).bind fun m' _ le => ?_
    exact ⟨fun _ => ⟨le.known (ended.1 rfl).1, le.known (ended.1 rfl).2⟩,
      fun hasError => absurd rfl hasError⟩

/-! ## What Elasticsearch holds -/

/-- A call may take effect: what it creates has its mapping. -/
def Fits (cfg : Config) (s : Elastic) : Call → Prop
  | .exists_ _ => True
  | .create name mapping => cfg.mapping name = some mapping
  | .index name _ => (s.indices name).isSome

/-- Each index has its mapping, each document an index, and what was sent may take effect again. -/
structure Mapped (cfg : Config) (s : Elastic) : Prop where
  indices : ∀ name origin, s.indices name = some origin →
    ∃ mapping, cfg.mapping name = some mapping ∧ origin = .mapping mapping
  docs : ∀ d ∈ s.docs, (s.indices d.1).isSome
  sent : ∀ e ∈ s.sent, Fits cfg s e

theorem effect_le (s : Elastic) (e : Call) : Registry.Le s.indices (s.effect e).indices := by
  cases e with
  | exists_ name => exact .refl _
  | create name mapping => exact Registry.create_le _ _ _
  | index name id => exact Registry.create_le _ _ _

theorem Fits.mono {e : Call} (h : Fits cfg s e) (le : Registry.Le s.indices t.indices) :
    Fits cfg t e := by
  cases e with
  | exists_ name => trivial
  | create name mapping => exact h
  | index name id => exact le.isSome h

theorem Mapped.effect {e : Call} (h : Mapped cfg s) (fits : Fits cfg s e) :
    Mapped cfg (s.effect e) := by
  have le := effect_le s e
  cases e with
  | exists_ name => exact h
  | create name mapping =>
    refine ⟨fun x origin is => ?_, fun d mem => le.isSome (h.docs d mem),
      fun e mem => (h.sent e mem).mono le⟩
    rcases Registry.create_cases is with old | ⟨rfl, rfl, _⟩
    · exact h.indices x origin old
    · exact ⟨mapping, fits, rfl⟩
  | index name id =>
    refine ⟨fun x origin is => ?_, fun d mem => ?_, fun e mem => (h.sent e mem).mono le⟩
    · rcases Registry.create_cases is with old | ⟨_, _, noError⟩
      · exact h.indices x origin old
      · have there : (s.indices name).isSome := fits
        simp [noError] at there
    · rcases List.mem_cons.mp mem with rfl | old
      · exact Registry.create_isSome _ _ _
      · exact le.isSome (h.docs d old)

/-- What the instances were told is so, and whose call has failed is noted. -/
structure Provided (cfg : Config) (s : Elastic) (stands : List Stand) : Prop where
  mapped : Mapped cfg s
  known : ∀ (i : Nat) m, stands[i]? = some m → ∀ name ∈ m.known, (s.indices name).isSome
  failed : ∀ (i : Nat) m, stands[i]? = some m → m.failed = true → i ∈ s.failed

/-- What an answer tells is so. -/
theorem isSome_of_tells {e : Call} {done : Bool} {r : Except String Answer}
    (admitted : admissible s e done r = true) (tells : e.tells r = true) :
    ((if done then s.effect e else s).indices e.name).isSome := by
  cases r with
  | error err => cases e <;> cases tells
  | ok a =>
    cases e with
    | exists_ name =>
      simp only [Call.tells, decide_eq_true_eq] at tells
      simp only [admissible, decide_eq_true_eq] at admitted
      cases done <;> exact admitted.1 tells
    | create name mapping =>
      simp only [Call.tells, Bool.or_eq_true, Bool.not_eq_true'] at tells
      simp only [admissible] at admitted
      by_cases refused : a.isError = true
      · simp only [refused, if_true, Bool.and_eq_true, Bool.not_eq_true',
          Bool.or_eq_true] at admitted
        rcases tells with fine | exists_
        · simp [refused] at fine
        · rw [admitted.1]
          simpa [exists_, Call.name] using admitted.2
      · rw [if_neg refused, Bool.and_eq_true] at admitted
        rw [admitted.1]
        exact Registry.create_isSome _ _ _
    | index name id => cases tells

/-- A call is noted before it may take effect. -/
def Elastic.noted (s : Elastic) (i : Nat) (e : Call) (r : Except String Answer) : Elastic :=
  { s with sent := s.sent ++ [e], failed := if e.fails r then i :: s.failed else s.failed }

theorem Mapped.noted {i : Nat} {e : Call} {r : Except String Answer} (h : Mapped cfg s)
    (fits : Fits cfg s e) :
    Mapped cfg (s.noted i e r) := by
  refine ⟨h.indices, h.docs, fun x mem => ?_⟩
  have fits' : Fits cfg s x := by
    rcases List.mem_append.mp mem with old | new
    · exact h.sent x old
    · rwa [List.mem_singleton.mp new]
  exact fits'.mono (.refl _)

theorem failed_effect (s : Elastic) (e : Call) : (s.effect e).failed = s.failed := by
  cases e <;> rfl

/-- A call that the protocol allows fits. -/
theorem Provided.fits {stands : List Stand} {i : Nat} {m : Stand} {e : Call}
    (h : Provided cfg s stands) (entry : stands[i]? = some m) (allowed : m.allows cfg e = true) :
    Fits cfg s e := by
  cases e with
  | exists_ name => trivial
  | create name mapping => simpa [Stand.allows, Fits] using allowed
  | index name id => exact h.known i m entry name (of_decide_eq_true allowed)

theorem Provided.respond {stands : List Stand} {i : Nat} {q : List Doc} {e : Call}
    {c : Bool × Except String Answer} {r : Except String Answer} {m : Stand}
    {onward : Except String Answer → Stand} (h : Provided cfg s stands)
    (entry : stands[i]? = some m) (admitted : ensuring cfg m e = some onward)
    (answers : Startup.respond s (i, q) e c = some (r, t)) :
    Provided cfg t (stands.set i (onward r)) := by
  obtain ⟨done, r'⟩ := c
  obtain ⟨allowed, ⟨⟩⟩ := Option.ite_none_right_eq_some.mp admitted
  obtain ⟨fine, ⟨⟩⟩ := Option.ite_none_right_eq_some.mp answers
  have fits := h.fits entry allowed
  have mapped : Mapped cfg (if done then (s.noted i e r').effect e else s.noted i e r') := by
    cases done with
    | false => exact h.mapped.noted fits
    | true => exact (h.mapped.noted fits).effect (fits.mono (.refl _))
  have le :
    Registry.Le s.indices (if done then (s.noted i e r').effect e else s.noted i e r').indices := by
    cases done with
    | false => exact .refl _
    | true => exact effect_le (s.noted i e r') e
  have failed : (if done then (s.noted i e r').effect e else s.noted i e r').failed =
      (s.noted i e r').failed := by
    cases done with
    | false => rfl
    | true => exact failed_effect _ e
  refine ⟨mapped, fun j stand found name mem => ?_, fun j stand found has => ?_⟩
  · by_cases mine : i = j
    · subst mine
      cases Rows.getElem?_set_some found
      simp only [Stand.onward] at mem
      split at mem
      · next tells =>
        rcases List.mem_cons.mp mem with rfl | old
        · exact isSome_of_tells (s := s.noted i e r') fine tells
        · exact le.isSome (h.known i m entry name old)
      · exact le.isSome (h.known i m entry name mem)
    · rw [List.getElem?_set_ne mine] at found
      exact le.isSome (h.known j stand found name mem)
  · show j ∈ (if done then (s.noted i e r').effect e else s.noted i e r').failed
    rw [failed]
    by_cases mine : i = j
    · subst mine
      cases Rows.getElem?_set_some found
      simp only [Stand.onward, Bool.or_eq_true] at has
      rcases has with old | new
      · have := h.failed i m entry old
        simp only [Elastic.noted]
        split <;> simp [this]
      · simp [Elastic.noted, new]
    · rw [List.getElem?_set_ne mine] at found
      have := h.failed j stand found has
      simp only [Elastic.noted]
      split <;> simp [this]

theorem Provided.again {stands : List Stand} {k : Nat} (h : Provided cfg s stands)
    (moves : Startup.again s k = some t) :
    Provided cfg t stands := by
  obtain ⟨e, found, rfl⟩ := Option.map_eq_some_iff.mp moves
  have fits := h.mapped.sent e (List.mem_of_getElem? found)
  refine ⟨h.mapped.effect fits, fun j m entry name mem =>
    (effect_le s e).isSome (h.known j m entry name mem), ?_⟩
  rw [failed_effect]
  exact h.failed

theorem provided (distinct : cfg.msgIndex ≠ cfg.fileIndex) {w : State}
    (h : (starting cfg).Reachable w) :
    ∃ stands, Provided cfg w.env stands ∧
    Machine.Tracks (ensuring cfg) (fun _ => Ended cfg) stands w.procs := by
  refine Machine.tracked (m := machine cfg) (fun _ => ⟨[], false⟩) (Provided cfg) ?_
    (fun _ docs _ => instance_follows distinct docs) ?_ ?_ ?_ h.unrestricted
  · rintro s rfl
    have mapped : Mapped cfg empty := ⟨nofun, by simp [empty], by simp [empty]⟩
    exact ⟨mapped, by simp, by simp⟩
  · rintro w docs t stands - h taken
    cases taken
    refine ⟨h.mapped, fun i m entry name mem => ?_, fun i m entry has => ?_⟩
    · rcases Rows.getElem?_concat entry with old | ⟨_, rfl⟩
      · exact h.known i m old name mem
      · cases mem
    · rcases Rows.getElem?_concat entry with old | ⟨_, rfl⟩
      · exact h.failed i m old has
      · cases has
  · intro w i c docs e k r t stands m onward _ _ _ h entry admitted answers
    exact h.respond entry admitted answers
  · intro w k t stands _ _ h moves
    exact h.again moves

/-- **Each index has its mapping.** In every run of any number of instances, with any call failing,
lost or repeated: an index that exists was created with the mapping of its name and never by a
document, each document lies in such an index, an instance that `New` gave an index finds both, and
`New` returns an error only to an instance one of whose calls has failed. -/
theorem indices_mapped (distinct : cfg.msgIndex ≠ cfg.fileIndex) {w : State}
    (h : (starting cfg).Reachable w) :
    (∀ name origin, w.env.indices name = some origin →
      name = cfg.msgIndex ∧ origin = .mapping messagesMapping ∨ name = cfg.fileIndex ∧
      origin = .mapping filesMapping) ∧
    (∀ d ∈ w.env.docs, (w.env.indices d.1).isSome) ∧
    ∀ (i : Nat) docs err, w.procs[i]? = some (docs, .ret err) →
      (err = none → (w.env.indices cfg.msgIndex).isSome ∧ (w.env.indices cfg.fileIndex).isSome) ∧
      (err ≠ none → i ∈ w.env.failed) := by
  obtain ⟨stands, provided, tracks⟩ := provided distinct h
  refine ⟨fun name origin is => ?_, provided.mapped.docs, fun i docs err returned => ?_⟩
  · obtain ⟨mapping, maps, rfl⟩ := provided.mapped.indices name origin is
    rw [Config.mapping] at maps
    split at maps
    · next isMsg =>
      cases maps
      exact .inl ⟨isMsg, rfl⟩
    · split at maps
      · next isFile =>
        cases maps
        exact .inr ⟨isFile, rfl⟩
      · cases maps
  · have entry := Rows.forall₂_getElem? tracks i
    rw [returned] at entry
    generalize found : stands[i]? = m at entry
    obtain @⟨m, _, ended⟩ := entry
    refine ⟨fun noError => ?_, fun hasError => provided.failed i m found (ended.2 hasError)⟩
    exact ⟨provided.known i m found _ (ended.1 noError).1, provided.known i m found _
      (ended.1 noError).2⟩

/-- What Elasticsearch answers to a `Create` that comes too late. -/
def tooLate : Except String Answer := .ok ⟨400, "resource_already_exists_exception"⟩

/-- Two instances see no index, and each of them creates one of the two. -/
def race : List (Move (List Doc) (Bool × Except String Answer) Nat) :=
  [.arrive [.message "7"], .arrive [], .go 0 (false, .ok ⟨404, ""⟩), .go 1 (false, .ok ⟨404, ""⟩),
    .go 0 (true, .ok ⟨200, ""⟩),
    .go 1 (false, tooLate), .go 1 (false, .ok ⟨404, ""⟩), .go 0 (false, .ok ⟨404, ""⟩),
    .go 1 (true, .ok ⟨200, ""⟩),
    .go 0 (false, tooLate), .go 0 (true, .ok ⟨201, ""⟩)]

theorem indices_mapped_race : ∃ w, (starting (settings "" "")).Reachable w ∧
    w.procs = [([.message "7"], .ret none), ([], .ret none)] ∧
    w.env.docs = [("otus-messages", "7")] ∧
    (w.env.indices "otus-messages").isSome ∧ (w.env.indices "otus-files").isSome := by
  have replayed : ∃ w, System.replay (machine (settings "" "")).step ⟨empty, [], []⟩ race = some w ∧
      w.procs = [([.message "7"], .ret none), ([], .ret none)] ∧
      w.env.docs = [("otus-messages", "7")] := ⟨_, rfl, rfl, rfl⟩
  obtain ⟨w, run, procs, docs⟩ := replayed
  have reached : (starting (settings "" "")).Reachable w :=
    ⟨_, ⟨rfl, rfl, rfl⟩, System.Runs.of_replay run⟩
  have both := ((indices_mapped (by decide) reached).2.2 0 _ none (by rw [procs]; rfl)).1 rfl
  exact ⟨w, reached, procs, docs, both⟩

end OtusApp.Search.Startup
