import OtusApp.Laws.Security.Keys
import OtusApp.Lib.Monitor

/-!
# Which keys are trusted

`Validate` looks a key up in a map that one validation at a time may replace. Every answer it gives
is the one that the newest usable answer of the endpoint leads to (`validated_by_newest`): a key
that the endpoint no longer publishes is not accepted once a newer set has been read, and a token is
refused for want of a key only if that set has no such key.
-/

namespace OtusApp.Security

open Go Program Transition Machine

variable {lib : Libraries}

/-! ## What a validation should answer -/

/-- The keys of the newest answer that could be used. -/
def published (lib : Libraries) : List Fetch → Keys
  | [] => []
  | f :: earlier =>
    match readKeys lib f.answer with
    | .ok keys => keys
    | .error _ => published lib earlier

/-- The answer to a token, by a set of keys and at the time its claims are checked. -/
inductive Decides (lib : Libraries) (keys : Keys) (token : Presented) : Option Refusal → Prop
  | unread (none : lib.parse token.raw = none) : Decides lib keys token (some .library)
  | method (t : Token) (read : lib.parse token.raw = some t) (alg : t.alg ≠ "RS256") :
      Decides lib keys token (some .library)
  | unnamed (t : Token) (read : lib.parse token.raw = some t) (alg : t.alg = "RS256")
      (kid : t.kid = "") :
      Decides lib keys token (some (.key "в токене нет kid"))
  | unknown (t : Token) (read : lib.parse token.raw = some t) (alg : t.alg = "RS256")
      (kid : t.kid ≠ "")
      (text : String) (missing : keys.find t.kid = none) : Decides lib keys token (some (.key text))
  | known (t : Token) (read : lib.parse token.raw = some t) (alg : t.alg = "RS256")
      (kid : t.kid ≠ "")
      (key : PublicKey) (found : keys.find t.kid = some key) :
      Decides lib keys token
        (if t.signed key && t.inForce lib.issuer token.checked then none else some .library)

/-! ## In which order the keys are read and written -/

/-- Where a validation is: before the mutex; inside it, after it has looked for a key, or with a set
it has read; and past it, with what it found. -/
inductive Stand
  | out
  | held
  | looked (kid : String) (key : Option PublicKey)
  | read (keys : Keys)
  | done (kid : String) (key : Option PublicKey)
deriving DecidableEq

/-- Whether it is inside the mutex. -/
def Stand.inside : Stand → Prop
  | .out | .done _ _ => False
  | .held | .looked _ _ | .read _ => True

/-- The order of the calls, with what they bring. -/
def reading (lib : Libraries) : Protocol Call Call.Result Stand
  | .out, .lock => some fun _ => .held
  | .held, .key kid => some fun key => .looked kid key
  | .looked kid key, .since => some fun _ => .looked kid key
  | .looked kid key, .get => some fun answer =>
    match readKeys lib answer with
    | .ok keys => .read keys
    | .error _ => .looked kid key
  | .read keys, .setKeys keys' => if keys' = keys then some fun _ => .held else none
  | .held, .setRefresh => some fun _ => .held
  | .looked kid key, .unlock => some fun _ => .done kid key
  | _, _ => none

/-- What the order admits. -/
inductive Reads (lib : Libraries) : Stand → (call : Call) → (call.Result → Stand) → Prop
  | lock : Reads lib .out .lock fun _ => .held
  | key (kid : String) : Reads lib .held (.key kid) fun key => .looked kid key
  | since (kid : String) (key : Option PublicKey) : Reads lib (.looked kid key) .since fun _ =>
    .looked kid key
  | get (kid : String) (key : Option PublicKey) : Reads lib (.looked kid key) .get fun answer =>
      match readKeys lib answer with
      | .ok keys => .read keys
      | .error _ => .looked kid key
  | setKeys (keys : Keys) : Reads lib (.read keys) (.setKeys keys) fun _ => .held
  | setRefresh : Reads lib .held .setRefresh fun _ => .held
  | unlock (kid : String) (key : Option PublicKey) : Reads lib (.looked kid key) .unlock fun _ =>
    .done kid key

theorem reads {stand : Stand} {call : Call} {onward : call.Result → Stand}
    (h : reading lib stand call = some onward) :
    Reads lib stand call onward := by
  cases stand <;> cases call <;> try cases h
  case out.lock => exact .lock
  case held.key kid => exact .key kid
  case held.setRefresh => exact .setRefresh
  case looked.unlock kid key => exact .unlock kid key
  case looked.since kid key => exact .since kid key
  case looked.get kid key => exact .get kid key
  case read.setKeys keys keys' =>
    obtain ⟨rfl, same⟩ := Option.ite_none_right_eq_some.mp h
    cases same
    exact .setKeys keys'

/-- How `keyFor` ends: it has not looked, as there is no name; or with what it found under the
name. -/
inductive Ended (kid : String) : Stand → Except String PublicKey → Prop
  | unnamed (empty : kid = "") : Ended kid .out (.error "в токене нет kid")
  | missing (named : kid ≠ "") (text : String) : Ended kid (.done kid none) (.error text)
  | found (named : kid ≠ "") (key : PublicKey) : Ended kid (.done kid (some key)) (.ok key)

/-- How it ends inside the mutex. -/
inductive Finds (kid : String) : Stand → Except String PublicKey → Prop
  | missing (text : String) : Finds kid (.looked kid none) (.error text)
  | found (key : PublicKey) : Finds kid (.looked kid (some key)) (.ok key)

theorem refreshKeys_reads (lib : Libraries) (kid : String) : (refreshKeys lib).Follows (reading lib)
    (fun stand err => stand = err.elim .held fun _ => .looked kid none) (.looked kid none) := by
  refine ⟨_, rfl, fun (answer : Except String Answer) => ?_⟩
  rcases readKeys_cases lib answer with ⟨e, failed⟩ | ⟨keys, read⟩
  · simp only [Prog.bind, failed]
    rfl
  · simp only [Prog.bind, read]
    exact ⟨_, if_pos rfl, fun _ => ⟨_, rfl, fun _ => rfl⟩⟩

theorem found_reads (lib : Libraries) (kid : String) :
    (found kid).Follows (reading lib) (Finds kid) .held := by
  refine ⟨_, rfl, fun (key : Option PublicKey) => ?_⟩
  cases key with
  | none => exact .missing _
  | some key => exact .found key

theorem lockedKeyFor_reads (lib : Libraries) (kid : String) :
    (lockedKeyFor lib kid).Follows (reading lib) (Finds kid) .held := by
  refine ⟨_, rfl, fun (key : Option PublicKey) => ?_⟩
  cases key with
  | some key => exact .found key
  | none =>
    refine ⟨_, rfl, fun (elapsed : Duration) => ?_⟩
    simp only [Prog.bind]
    split
    · exact .missing _
    · refine (refreshKeys_reads lib kid).bind fun stand err reached => ?_
      cases err with
      | some e =>
        subst reached
        exact .missing e
      | none =>
        subst reached
        exact found_reads lib kid

theorem keyFor_reads (lib : Libraries) (kid : String) :
    (keyFor lib kid).Follows (reading lib) (Ended kid) .out := by
  unfold keyFor
  split
  · next empty => exact .unnamed empty
  · next named =>
    refine ⟨_, rfl, fun _ => (lockedKeyFor_reads lib kid).bind fun stand key finds => ?_⟩
    cases finds with
    | missing text => exact ⟨_, rfl, fun _ => .missing named text⟩
    | found key => exact ⟨_, rfl, fun _ => .found named key⟩

/-- How a validation ends: without a look at the keys, or with an answer for whatever keys have what
it found. -/
inductive Answered (lib : Libraries) (token : Presented) : Stand → Option Refusal → Prop
  | early (a : Option Refusal) (decides : ∀ keys, Decides lib keys token a) :
      Answered lib token .out a
  | late (a : Option Refusal) (kid : String) (key : Option PublicKey)
      (decides : ∀ keys, Keys.find keys kid = key → Decides lib keys token a) :
      Answered lib token (.done kid key) a

theorem validate_reads (lib : Libraries) (token : Presented) :
    (validate lib token).Follows (reading lib) (Answered lib token) .out := by
  unfold validate
  split
  · next unread => exact .early _ fun _ => .unread unread
  · next t read =>
    split
    · next method => exact .early _ fun _ => .method t read method
    · next method =>
      have alg := not_not.mp method
      refine (keyFor_reads lib t.kid).bind fun stand key ended => ?_
      cases ended with
      | unnamed empty => exact .early _ fun _ => .unnamed t read alg empty
      | missing named text =>
        exact .late _ _ _ fun _ missing => .unknown t read alg named text missing
      | found named key => exact .late _ _ _ fun _ found => .known t read alg named key found

/-! ## What the mutex guards -/

/-- The map is the newest set. -/
def Current (lib : Libraries) (s : Env) : Prop := s.keys = published lib s.fetches

/-- What holds while a validation is inside. -/
def Stand.Holds (lib : Libraries) (s : Env) : Stand → Prop
  | .looked kid key => Current lib s ∧ s.keys.find kid = key
  | .read keys => published lib s.fetches = keys
  | _ => Current lib s

/-- One validation at a time is inside, and the map is the newest set while none is. -/
abbrev Trusted (lib : Libraries) : Env → List Stand → Prop :=
  Monitor Stand.inside Env.holder (Current lib) (Stand.Holds lib)

variable {s t : Env} {stands : List Stand} {i : Nat} {stand : Stand}

/-- A fetch that fails leaves the newest set as it is. -/
theorem published_failed {answer : Except String Answer} {e : String}
    (failed : readKeys lib answer = .error e) (time : Instant) (fetches : List Fetch) :
    published lib (⟨time, answer⟩ :: fetches) = published lib fetches := by
  simp only [published, failed]

theorem published_read {answer : Except String Answer} {keys : Keys}
    (read : readKeys lib answer = .ok keys) (time : Instant) (fetches : List Fetch) :
    published lib (⟨time, answer⟩ :: fetches) = keys := by
  simp only [published, read]

/-- **One call.** -/
theorem trusted_respond {call : Call} {onward : call.Result → Stand} {answer : Except String Answer}
    {r : call.Result} (trusted : Trusted lib s stands) (entry : stands[i]? = some stand)
    (admitted : reading lib stand call = some onward) (h : respond s i call answer = some (r, t)) :
    Trusted lib t (stands.set i (onward r)) := by
  cases reads admitted with
  | lock =>
    obtain ⟨none, same⟩ := Option.ite_none_right_eq_some.mp h
    cases same
    exact trusted.turn entry (.inr none) (fun _ => ⟨rfl, trusted.enter none⟩)
      (fun out => absurd trivial out)
  | key kid =>
    cases h
    have mine := trusted.alone i _ entry trivial
    exact trusted.turn entry (.inl trivial) (fun _ => ⟨mine, trusted.here entry trivial, rfl⟩)
      (fun out => absurd trivial out)
  | since kid key =>
    cases h
    have mine := trusted.alone i _ entry trivial
    exact trusted.turn entry (.inl trivial) (fun _ => ⟨mine, trusted.here entry trivial⟩)
      (fun out => absurd trivial out)
  | get kid key =>
    cases h
    have mine := trusted.alone i _ entry trivial
    obtain ⟨current, found⟩ := trusted.here entry trivial
    rcases readKeys_cases lib answer with ⟨e, failed⟩ | ⟨keys, read⟩
    · simp only [failed]
      refine trusted.turn entry (.inl trivial) (fun _ => ⟨mine, ?_, found⟩)
        (fun out => absurd trivial out)
      exact current.trans (published_failed failed _ _).symm
    · simp only [read]
      exact trusted.turn entry (.inl trivial) (fun _ => ⟨mine, published_read read _ _⟩)
        (fun out => absurd trivial out)
  | setKeys keys =>
    cases h
    have mine := trusted.alone i _ entry trivial
    have newest : published lib s.fetches = keys := trusted.here entry trivial
    exact trusted.turn entry (.inl trivial) (fun _ => ⟨mine, newest.symm⟩)
      (fun out => absurd trivial out)
  | setRefresh =>
    cases h
    have mine := trusted.alone i _ entry trivial
    exact trusted.turn entry (.inl trivial) (fun _ => ⟨mine, trusted.here entry trivial⟩)
      (fun out => absurd trivial out)
  | unlock kid key =>
    cases h
    have current : Current lib s := (trusted.here entry trivial).1
    exact trusted.turn entry (.inl trivial) (fun isIn => absurd isIn id) (fun _ => current)

/-- **The map is the newest set**, in every run, whenever no validation is inside. -/
theorem trusted {w : State} (h : (auth lib).Reachable w) :
    ∃ stands, Trusted lib w.env stands ∧ Tracks (reading lib) (Answered lib) stands w.procs := by
  refine tracked (fun _ => .out) (Trusted lib) ?_ ?_ ?_ ?_ ?_ h.unrestricted
  · rintro s ⟨_, keys, _, none⟩
    refine Monitor.empty ?_
    rw [Current, keys, none]
    rfl
  · exact fun _ token _ => validate_reads lib token
  · rintro w raw _ stands _ trusted ⟨⟩
    exact trusted.arrive id
  · intro w i answer raw call k r s' stands stand onward _ _ _ trusted entry allowed answers
    exact trusted_respond trusted entry allowed answers
  · rintro w elapsed _ stands _ _ trusted ⟨⟩
    refine trusted.move rfl id fun stand holds => ?_
    cases stand <;> exact holds

/-- The last call of a validation that has looked gives the mutex back, and the newest set has what
it found. -/
theorem found_of_done {call : Call} {onward : call.Result → Stand} {answer : Except String Answer}
    {r : call.Result} (trusted : Trusted lib s stands) (entry : stands[i]? = some stand)
    (admitted : reading lib stand call = some onward) (h : respond s i call answer = some (r, t))
    {kid : String} {key : Option PublicKey} (done : onward r = .done kid key) :
    (published lib t.fetches).find kid = key := by
  cases reads admitted with
  | unlock kid' key' =>
    cases h
    cases done
    obtain ⟨current, found⟩ := trusted.here entry trivial
    rw [← current]
    exact found
  | get kid' key' =>
    cases h
    rcases readKeys_cases lib answer with ⟨e, failed⟩ | ⟨keys, read⟩
    · simp [failed] at done
    · simp [read] at done
  | _ => cases done

theorem ne_out_of_reading {call : Call} {onward : call.Result → Stand}
    (h : reading lib stand call = some onward) (r : call.Result) : onward r ≠ .out := by
  cases reads h with
  | get kid key =>
    rcases readKeys_cases lib r with ⟨e, failed⟩ | ⟨keys, read⟩
    · simp [failed]
    · simp [read]
  | _ => nofun

/-- A token that is accepted has a signature of a key under its name, and has not expired. -/
theorem Decides.accepted {keys : Keys} {token : Presented} (h : Decides lib keys token none) :
    ∃ t key, lib.parse token.raw = some t ∧ keys.find t.kid = some key ∧ t.signed key = true ∧
      t.exp.expires token.checked = true := by
  generalize answer : (none : Option Refusal) = a at h
  cases h with
  | known t read alg kid key found =>
    split at answer
    · next passes =>
      simp only [Token.inForce, Bool.and_eq_true] at passes
      exact ⟨t, key, read, found, passes.1, passes.2.1.1⟩
    · cases answer
  | _ => cases answer

/-- **Which keys are trusted.** In every run, each validation answers as the keys of the newest
usable answer of the endpoint decide at the moment it gives the mutex back. -/
theorem validated_by_newest {w : State} (h : (auth lib).Reachable w) :
    ∀ token a s, (token, a, s) ∈ w.answered → Decides lib (published lib s.fetches) token a := by
  refine tracked_answered (fun token a s => Decides lib (published lib s.fetches) token a)
    (fun w reached => trusted (reached.of_restrict : (auth lib).Reachable w)) ?_ ?_ h.unrestricted
  · intro s token a t _ returns
    have follows := validate_reads lib token
    rw [show validate lib token = .ret a from returns] at follows
    cases follows with
    | early _ decides => exact decides _
  · intro s i answer raw call r t a stands stand onward trusted entry admitted answers ended
    generalize goes : onward r = last at ended
    cases ended with
    | early _ _ => exact absurd goes (ne_out_of_reading admitted r)
    | late _ kid key decides => exact decides _ (found_of_done trusted entry admitted answers goes)

/-- A token names its key and expires after a minute. A document has the key `a` at first, and then
the key `b`. -/
def rotatingLibraries : Libraries where
  issuer := ""
  parse raw := some ⟨"RS256", raw, fun _ => true, .at 60000000000, .missing, some ""⟩
  decode body := .ok [⟨"RSA", if body = [] then "a" else "b", "AQAB", "AQAB"⟩]
  base64 _ := some [1]

/-- A token of the key `a`; half a minute later one of the key `b`, and then one of the key `a`
again. -/
def rotation : List (Move Presented (Except String Answer) Nat) :=
  .arrive ⟨"a", 0⟩ :: List.replicate 8 (.go 0 (.ok ⟨200, "200 OK", []⟩)) ++
    .background 30000000000 :: .arrive ⟨"b", 30000000000⟩ ::
      List.replicate 8 (.go 1 (.ok ⟨200, "200 OK", [1]⟩)) ++
    .arrive ⟨"a", 30000000000⟩ :: List.replicate 4 (.go 2 refused)

theorem validated_by_newest_rotation : ∃ w s s' rest, (auth rotatingLibraries).Reachable w ∧
    w.answered = (⟨"a", 30000000000⟩, some (.key "ключ подписи не найден"), s) :: rest ∧
    (⟨"a", 0⟩, none, s') ∈ rest ∧
    Decides rotatingLibraries (published rotatingLibraries s.fetches) ⟨"a", 30000000000⟩
      (some (.key "ключ подписи не найден")) := by
  have replayed : ∃ w s b s',
    System.replay (machine rotatingLibraries).step started rotation = some w ∧
      w.answered = [(⟨"a", 30000000000⟩, some (.key "ключ подписи не найден"), s), b,
        (⟨"a", 0⟩, none, s')] := ⟨_, _, _, _, rfl, rfl⟩
  obtain ⟨w, s, b, s', hw, answered⟩ := replayed
  have reached : (auth rotatingLibraries).Reachable w :=
    ⟨started, ⟨⟨rfl, rfl, rfl, rfl⟩, rfl, rfl⟩, System.Runs.of_replay hw⟩
  refine ⟨w, s, s', _, reached, answered, by simp, validated_by_newest reached _ _ _ ?_⟩
  rw [answered]
  exact List.mem_cons_self

end OtusApp.Security
