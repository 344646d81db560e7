import OtusApp.Lib.Protocol
import OtusApp.Security.Jwt

/-!
# How often the keys are fetched

`keyFor` asks for the keys only while it holds the mutex, and only if the last refresh is thirty
seconds ago (`validate_follows`). A fetch that brings keys is followed by a refresh before the mutex
is free again, so the next one is at least thirty seconds later (`throttled`). One that fails is
not: the time of the last refresh stays as it was.
-/

namespace OtusApp.Security

open Go Program Transition Machine

variable {lib : Libraries}

/-! ## Answers with keys -/

/-- An answer with a key: its status is 200, its document can be read, and one of the entries is an
RSA key. -/
def HasKeys (lib : Libraries) (answer : Except String Answer) : Prop :=
  ∃ resp doc, answer = .ok resp ∧ resp.statusCode = 200 ∧ lib.decode resp.body = .ok doc ∧
    ∃ k ∈ doc, k.kty = "RSA" ∧ (lib.base64 k.n).isSome ∧ (lib.base64 k.e).isSome

/-- Whether `refreshKeys` takes an answer. -/
def usable (lib : Libraries) (answer : Except String Answer) : Bool :=
  match readKeys lib answer with
  | .ok _ => true
  | .error _ => false

theorem rsaKey_isSome {k : Jwk} (rsa : k.kty = "RSA") (n : (lib.base64 k.n).isSome)
    (e : (lib.base64 k.e).isSome) :
    ∃ key, rsaKey lib k = some key := by
  obtain ⟨bytes, n⟩ := Option.isSome_iff_exists.mp n
  obtain ⟨bytes', e⟩ := Option.isSome_iff_exists.mp e
  rw [rsaKey, if_neg (not_not.mpr rsa), n, e]
  exact ⟨_, rfl⟩

/-- A map with a key stays one, and an entry with a key makes it one. -/
theorem rsaKeys_ne_nil {keys : Keys} {doc : List Jwk}
    (h : keys ≠ [] ∨ ∃ k ∈ doc, ∃ key, rsaKey lib k = some key) : rsaKeys lib keys doc ≠ [] := by
  induction doc generalizing keys with
  | nil => exact h.resolve_right fun ⟨_, mem, _⟩ => absurd mem List.not_mem_nil
  | cons k rest ih =>
    rw [rsaKeys]
    cases entry : rsaKey lib k with
    | some key => exact ih (.inl (List.cons_ne_nil _ _))
    | none =>
      apply ih
      rcases h with kept | ⟨k', mem, key, found⟩
      · exact .inl kept
      · rcases List.mem_cons.mp mem with rfl | later
        · rw [entry] at found
          cases found
        · exact .inr ⟨k', later, key, found⟩

theorem HasKeys.usable {answer : Except String Answer} (h : HasKeys lib answer) :
    Security.usable lib answer = true := by
  obtain ⟨resp, doc, rfl, status, decoded, k, mem, rsa, n, e⟩ := h
  have nonempty : rsaKeys lib [] doc ≠ [] := rsaKeys_ne_nil (.inr ⟨k, mem, rsaKey_isSome rsa n e⟩)
  simp only [Security.usable, readKeys, status, ne_eq, not_true_eq_false, if_false, decoded,
    if_neg nonempty]

/-! ## In which order the calls are made -/

/-- Where a validation is: outside the mutex, inside it, past the check of the last refresh, or with
the answer of a fetch that is not noted yet. -/
inductive Mode
  | out
  | held
  | cleared
  | fetched
deriving DecidableEq, Repr

/-- The order of the calls. -/
def discipline (lib : Libraries) : Protocol Call Call.Result Mode
  | .out, .lock => some fun _ => .held
  | .held, .unlock => some fun _ => .out
  | .held, .key _ => some fun _ => .held
  | .held, .since =>
    some fun (elapsed : Duration) => if elapsed < 30 * Duration.second then .held else .cleared
  | .cleared, .get => some fun answer => if usable lib answer then .fetched else .held
  | .fetched, .setKeys _ => some fun _ => .fetched
  | .fetched, .setRefresh => some fun _ => .held
  | _, _ => none

theorem readKeys_cases (lib : Libraries) (answer : Except String Answer) :
    (∃ e, readKeys lib answer = .error e) ∨ ∃ keys, readKeys lib answer = .ok keys := by
  cases readKeys lib answer with
  | error e => exact .inl ⟨e, rfl⟩
  | ok keys => exact .inr ⟨keys, rfl⟩

theorem refreshKeys_follows (lib : Libraries) :
    (refreshKeys lib).Follows (discipline lib) (fun mode _ => mode = .held) .cleared := by
  refine ⟨_, rfl, fun (answer : Except String Answer) => ?_⟩
  rcases readKeys_cases lib answer with ⟨e, failed⟩ | ⟨keys, read⟩
  · simp only [Prog.bind, usable, failed]
    rfl
  · simp only [Prog.bind, usable, read]
    exact ⟨_, rfl, fun _ => ⟨_, rfl, fun _ => rfl⟩⟩

theorem found_follows (lib : Libraries) (kid : String) :
    (found kid).Follows (discipline lib) (fun mode _ => mode = .held) .held := by
  refine ⟨_, rfl, fun key => ?_⟩
  cases key <;> rfl

theorem lockedKeyFor_follows (lib : Libraries) (kid : String) :
    (lockedKeyFor lib kid).Follows (discipline lib) (fun mode _ => mode = .held) .held := by
  refine ⟨_, rfl, fun key => ?_⟩
  cases key with
  | some key => rfl
  | none =>
    refine ⟨_, rfl, fun (elapsed : Duration) => ?_⟩
    simp only [Prog.bind]
    split
    · rfl
    · refine (refreshKeys_follows lib).bind fun mode err held => ?_
      cases held
      cases err with
      | some e => rfl
      | none => exact found_follows lib kid

theorem keyFor_follows (lib : Libraries) (kid : String) :
    (keyFor lib kid).Follows (discipline lib) (fun mode _ => mode = .out) .out := by
  unfold keyFor
  split
  · rfl
  · refine ⟨_, rfl, fun _ => ?_⟩
    refine (lockedKeyFor_follows lib kid).bind fun mode key held => ?_
    cases held
    exact ⟨_, rfl, fun _ => rfl⟩

/-- Every validation keeps to the order, whatever it is answered. -/
theorem validate_follows (lib : Libraries) (token : Presented) :
    (validate lib token).Follows (discipline lib) (fun mode _ => mode = .out) .out := by
  unfold validate
  split
  · rfl
  · split
    · rfl
    · refine (keyFor_follows lib _).bind fun mode key out => ?_
      cases out
      cases key <;> rfl

/-- What the order admits. -/
inductive Allowed (lib : Libraries) : Mode → (call : Call) → (call.Result → Mode) → Prop
  | lock : Allowed lib .out .lock fun _ => .held
  | unlock : Allowed lib .held .unlock fun _ => .out
  | key (kid : String) : Allowed lib .held (.key kid) fun _ => .held
  | since : Allowed lib .held .since fun (elapsed : Duration) =>
      if elapsed < 30 * Duration.second then .held else .cleared
  | get : Allowed lib .cleared .get fun answer => if usable lib answer then .fetched else .held
  | setKeys (keys : Keys) : Allowed lib .fetched (.setKeys keys) fun _ => .fetched
  | setRefresh : Allowed lib .fetched .setRefresh fun _ => .held

theorem allowed {mode : Mode} {call : Call} {onward : call.Result → Mode}
    (h : discipline lib mode call = some onward) : Allowed lib mode call onward := by
  cases mode <;> cases call <;> cases h <;> constructor

/-! ## What the mutex guards -/

/-- Every fetch that brought keys is noted. -/
def Rested (lib : Libraries) (s : Env) : Prop :=
  ∀ f ∈ s.fetches, usable lib f.answer = true → ∃ t, s.lastRefresh = some t ∧ f.time ≤ t

/-- Every fetch that brought keys is thirty seconds ago. -/
def Due (lib : Libraries) (s : Env) : Prop :=
  ∀ f ∈ s.fetches, usable lib f.answer = true → f.time + 30 * Duration.second ≤ s.clock

/-- What holds while the holder of the mutex is in a mode, or while none holds it. -/
def Inside (lib : Libraries) (s : Env) : Mode → Prop
  | .out => Rested lib s
  | .held => Rested lib s
  | .cleared => Rested lib s ∧ Due lib s
  | .fetched => True

/-- What holds of the fetches at any time. -/
structure Sound (lib : Libraries) (s : Env) : Prop where
  past : ∀ f ∈ s.fetches, f.time ≤ s.clock
  noted : ∀ t, s.lastRefresh = some t → t ≤ s.clock
  apart : s.fetches.Pairwise fun later earlier =>
    usable lib earlier.answer = true → earlier.time + 30 * Duration.second ≤ later.time

/-- One validation at a time is inside the mutex, and what holds there holds. -/
structure Guarded (lib : Libraries) (s : Env) (modes : List Mode) : Prop where
  sound : Sound lib s
  alone : ∀ (i : Nat) mode, modes[i]? = some mode → mode ≠ .out → s.holder = some i
  inside : ∀ mode ∈ modes, mode ≠ .out → Inside lib s mode
  free : (∀ mode ∈ modes, mode = .out) → Rested lib s

variable {s t : Env} {modes : List Mode} {i : Nat} {mode next : Mode}

/-- The step of a validation that holds the mutex, or takes it. -/
theorem Guarded.turn (g : Guarded lib s modes) (entry : modes[i]? = some mode)
    (mine : mode ≠ .out ∨ s.holder = none) (sound : Sound lib t)
    (holder : next ≠ .out → t.holder = some i) (inside : Inside lib t next) :
    Guarded lib t (modes.set i next) := by
  have others : ∀ (j : Nat) m, j ≠ i → modes[j]? = some m → m = .out := by
    intro j m other there
    by_contra isIn
    have holds := g.alone j m there isIn
    rcases mine with here | none
    · exact other (Option.some.inj (holds.symm.trans (g.alone i mode entry here)))
    · rw [none] at holds
      cases holds
  have stands : ∀ (j : Nat) m, (modes.set i next)[j]? = some m → m ≠ .out → j = i ∧ m = next := by
    intro j m there isIn
    by_cases here : j = i
    · subst here
      rw [List.getElem?_set_self (List.getElem?_eq_some_iff.mp entry).1] at there
      exact ⟨rfl, (Option.some.inj there).symm⟩
    · rw [List.getElem?_set_ne (Ne.symm here)] at there
      exact absurd (others j m here there) isIn
  constructor
  · exact sound
  · intro j m there isIn
    obtain ⟨rfl, rfl⟩ := stands j m there isIn
    exact holder isIn
  · intro m mem isIn
    obtain ⟨j, there⟩ := List.mem_iff_getElem?.mp mem
    obtain ⟨_, rfl⟩ := stands j m there isIn
    exact inside
  · intro all
    have out : next = .out := all next (List.mem_set (List.getElem?_eq_some_iff.mp entry).1 next)
    rw [out] at inside
    exact inside

/-- Thirty seconds after the last refresh, every fetch that brought keys is thirty seconds ago. -/
theorem Rested.due (rested : Rested lib s)
    (long : ¬since s.clock s.lastRefresh < 30 * Duration.second) : Due lib s := by
  intro f mem brought
  obtain ⟨last, noted, before⟩ := rested f mem brought
  rw [noted] at long
  have elapsed : ∀ now last time : Int, ¬min (now - last) 9223372036854775807 < 30 *
      1000000000 → time ≤ last →
        time + 30 * 1000000000 ≤ now := by
    intro now last time long before
    omega
  exact elapsed _ _ _ long before

/-- A fetch that is due. -/
theorem Sound.fetch (sound : Sound lib s) (due : Due lib s) (answer : Except String Answer) :
    Sound lib { s with fetches := ⟨s.clock, answer⟩ :: s.fetches } := by
  refine ⟨?_, sound.noted, List.pairwise_cons.mpr ⟨due, sound.apart⟩⟩
  intro f mem
  rcases List.mem_cons.mp mem with rfl | old
  · exact Int.le_refl _
  · exact sound.past f old

/-- **One call.** -/
theorem Guarded.respond {call : Call} {onward : call.Result → Mode} {answer : Except String Answer}
    {r : call.Result} (g : Guarded lib s modes) (entry : modes[i]? = some mode)
    (admitted : discipline lib mode call = some onward)
    (h : Security.respond s i call answer = some (r, t)) :
    Guarded lib t (modes.set i (onward r)) := by
  have mem := List.mem_of_getElem? entry
  cases allowed admitted with
  | lock =>
    obtain ⟨none, same⟩ := Option.ite_none_right_eq_some.mp h
    cases same
    have out : ∀ mode ∈ modes, mode = .out := by
      intro mode mem
      obtain ⟨j, there⟩ := List.mem_iff_getElem?.mp mem
      by_contra isIn
      rw [g.alone j mode there isIn] at none
      cases none
    exact g.turn entry (.inr none) ⟨g.sound.past, g.sound.noted, g.sound.apart⟩
      (fun _ => rfl) (g.free out)
  | unlock =>
    cases h
    have rested : Rested lib s := g.inside .held mem (by decide)
    exact g.turn entry (.inl (by decide)) ⟨g.sound.past, g.sound.noted, g.sound.apart⟩
      (fun isIn => absurd rfl isIn) rested
  | key kid =>
    cases h
    have mine := g.alone i .held entry (by decide)
    exact g.turn entry (.inl (by decide)) g.sound (fun _ => mine) (g.inside .held mem (by decide))
  | since =>
    cases h
    have mine := g.alone i .held entry (by decide)
    have rested : Rested lib s := g.inside .held mem (by decide)
    refine g.turn entry (.inl (by decide)) g.sound (fun _ => mine) ?_
    beta_reduce
    split
    · exact rested
    · next long => exact ⟨rested, rested.due long⟩
  | get =>
    cases h
    have mine := g.alone i .cleared entry (by decide)
    obtain ⟨rested, due⟩ : Rested lib s ∧ Due lib s := g.inside .cleared mem (by decide)
    refine g.turn entry (.inl (by decide)) (g.sound.fetch due _) (fun _ => mine) ?_
    beta_reduce
    split
    · trivial
    · next failed =>
      intro f there brought
      rcases List.mem_cons.mp there with rfl | old
      · exact absurd brought failed
      · exact rested f old brought
  | setKeys keys =>
    cases h
    have mine := g.alone i .fetched entry (by decide)
    exact g.turn entry (.inl (by decide)) ⟨g.sound.past, g.sound.noted, g.sound.apart⟩
      (fun _ => mine) trivial
  | setRefresh =>
    cases h
    have mine := g.alone i .fetched entry (by decide)
    refine g.turn entry (.inl (by decide)) ⟨g.sound.past, ?_, g.sound.apart⟩ (fun _ => mine) ?_
    · intro last same
      cases same
      exact Int.le_refl _
    · intro f there _
      exact ⟨s.clock, rfl, g.sound.past f there⟩

/-- The clock moves on. -/
theorem Guarded.tick (g : Guarded lib s modes) (elapsed : Nat) :
    Guarded lib { s with clock := s.clock + elapsed } modes := by
  have later : s.clock ≤ s.clock + elapsed :=
    Int.le_add_of_nonneg_right (Int.natCast_nonneg elapsed)
  constructor
  · exact ⟨fun f mem => Int.le_trans (g.sound.past f mem) later, fun last is =>
      Int.le_trans (g.sound.noted last is) later,
      g.sound.apart⟩
  · exact g.alone
  · intro mode mem isIn
    have held := g.inside mode mem isIn
    cases mode with
    | out => exact held
    | held => exact held
    | cleared => exact ⟨held.1, fun f there brought => Int.le_trans (held.2 f there brought) later⟩
    | fetched => trivial
  · exact g.free

/-- A token arrives. -/
theorem Guarded.arrive (g : Guarded lib s modes) : Guarded lib s (modes ++ [.out]) := by
  constructor
  · exact g.sound
  · intro i mode there isIn
    rcases Rows.getElem?_concat there with old | ⟨_, new⟩
    · exact g.alone i mode old isIn
    · exact absurd new isIn
  · intro mode mem isIn
    rcases List.mem_append.mp mem with old | new
    · exact g.inside mode old isIn
    · exact absurd (List.mem_singleton.mp new) isIn
  · exact fun all => g.free fun mode mem => all mode (List.mem_append_left _ mem)

/-- **The mutex** guards what it is for, in every run. -/
theorem guarded {w : State} (h : (auth lib).Reachable w) : ∃ modes, Guarded lib w.env modes ∧
    Tracks (discipline lib) (fun _ mode _ => mode = .out) modes w.procs := by
  refine tracked (fun _ => .out) (Guarded lib) ?_ ?_ ?_ ?_ ?_ h.unrestricted
  · rintro s ⟨_, _, last, none⟩
    refine ⟨⟨?_, ?_, ?_⟩, nofun, nofun, ?_⟩ <;> simp [none, last, Rested]
  · exact fun _ token _ => validate_follows lib token
  · rintro w raw _ modes _ g ⟨⟩
    exact g.arrive
  · intro w i answer raw call k r s' modes mode onward _ _ _ g entry allowed answers
    exact g.respond entry allowed answers
  · rintro w elapsed _ modes _ _ g ⟨⟩
    exact g.tick elapsed

/-- **How often the keys are fetched.** In every run, of any two fetches of which the earlier was
answered with a key, the later is started at least thirty seconds after it. -/
theorem throttled {w : State} (h : (auth lib).Reachable w) :
    w.env.fetches.Pairwise fun later earlier =>
      HasKeys lib earlier.answer → earlier.time + 30 * Duration.second ≤ later.time := by
  obtain ⟨modes, g, _⟩ := guarded h
  exact g.sound.apart.imp fun apart keys => apart keys.usable

/-- A token names its key, a document has the key `k`, and every text is base64. -/
def plainLibraries : Libraries where
  issuer := ""
  parse raw := some ⟨"RS256", raw, fun _ => true, .at 60000000000, .missing, some ""⟩
  decode _ := .ok [⟨"RSA", "k", "AQAB", "AQAB"⟩]
  base64 _ := some [1]

/-- Nothing has been validated yet. -/
def started : State := ⟨⟨0, none, [], none, []⟩, [], []⟩

/-- The endpoint answers with a key. -/
def withKey : Except String Answer := .ok ⟨200, "200 OK", []⟩

/-- The endpoint does not answer. -/
def refused : Except String Answer := .error "connection refused"

/-- Two tokens whose keys are not known, the second thirty seconds after the first. -/
def halfMinute : List (Move Presented (Except String Answer) Nat) :=
  .arrive ⟨"a", 0⟩ :: List.replicate 8 (.go 0 withKey) ++
    .background 30000000000 :: .arrive ⟨"b", 30000000000⟩ :: List.replicate 4 (.go 1 withKey)

theorem throttled_halfMinute :
    ∃ w later earlier, (auth plainLibraries).Reachable w ∧ w.env.fetches = [later, earlier] ∧
    HasKeys plainLibraries earlier.answer ∧ earlier.time + 30 * Duration.second ≤ later.time := by
  have replayed : ∃ w, System.replay (machine plainLibraries).step started halfMinute = some w ∧
      w.env.fetches = [⟨30000000000, withKey⟩, ⟨0, withKey⟩] := ⟨_, rfl, rfl⟩
  obtain ⟨w, hw, fetches⟩ := replayed
  have reached : (auth plainLibraries).Reachable w :=
    ⟨started, ⟨⟨rfl, rfl, rfl, rfl⟩, rfl, rfl⟩, System.Runs.of_replay hw⟩
  have keys : HasKeys plainLibraries withKey :=
    ⟨_, _, rfl, rfl, rfl, _, List.mem_singleton_self _, rfl, rfl, rfl⟩
  have apart := throttled reached
  rw [fetches] at apart
  have pair := (List.pairwise_cons.mp apart).1 ⟨0, withKey⟩ (List.mem_singleton_self _)
  exact ⟨w, _, _, reached, fetches, keys, pair keys⟩

/-- Two such tokens at once, while the endpoint does not answer. -/
def outage : List (Move Presented (Except String Answer) Nat) :=
  .arrive ⟨"a", 0⟩ :: List.replicate 5 (.go 0 refused) ++ .arrive ⟨"b", 0⟩ :: List.replicate 5
    (.go 1 refused)

/-- **An endpoint that does not answer** is asked again at once: two fetches are started at the same
time. -/
theorem refetched_at_once :
    ∃ w later earlier, (auth plainLibraries).Reachable w ∧ w.env.fetches = [later, earlier] ∧
    later.time = earlier.time := by
  have replayed : ∃ w, System.replay (machine plainLibraries).step started outage = some w ∧
      w.env.fetches = [⟨0, refused⟩, ⟨0, refused⟩] := ⟨_, rfl, rfl⟩
  obtain ⟨w, hw, fetches⟩ := replayed
  exact ⟨w, _, _,
    ⟨started, ⟨⟨rfl, rfl, rfl, rfl⟩, rfl, rfl⟩, System.Runs.of_replay hw⟩, fetches, rfl⟩

end OtusApp.Security
