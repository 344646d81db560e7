import OtusApp.Laws.Resilience.Callers
import OtusApp.Lib.Rows
import OtusApp.Resilience.Http

/-!
# What a transport sends and holds

Of the calls of `RoundTrip`, those to the base transport, to `GetBody` and to `Close` show, and that
the breaker has refused. `Ledger` says what has been shown so far and what the closures' variables
have to do with each other. It is kept by each attempt, together with what lets the policy go on
(`Going`), and the end of `RoundTrip` settles what is left of it.
-/

namespace OtusApp.Resilience.Http

open Go Program

/-! ## What shows -/

/-- A call that shows. -/
inductive Event
  | refused
  | copied (bytes : Bytes)
  | sent (next : Sent) (answer : Except Fault Response)
  | closed (attempt : Nat)
  | closedBody

/-- What shows of a call and its answer. -/
def event : (Σ e : Call, e.Result) → Option Event
  | ⟨.admit_, none⟩ => some .refused
  | ⟨.getBody, .ok bytes⟩ => some (.copied bytes)
  | ⟨.roundTrip next, answer⟩ => some (.sent next answer)
  | ⟨.closeResponse attempt, _⟩ => some (.closed attempt)
  | ⟨.closeBody, _⟩ => some .closedBody
  | _ => none

/-- The attempts, with their answers. -/
def sends (seen : List Event) : List (Sent × Except Fault Response) :=
  seen.filterMap fun
    | .sent next answer => some (next, answer)
    | _ => none

/-- An answer after which a request may be sent again. -/
def again : Except Fault Response → Bool
  | .error f => f.transient
  | .ok response => temporary response.status

/-- A request that cannot be replayed. -/
def Unrepeatable (req : Outgoing) : Prop :=
  (req.method ≠ "GET" ∧ req.method ≠ "HEAD" ∧ req.method ≠ "PUT") ∨
    ((∃ bytes, req.body = .stream bytes) ∧ req.getBody = false)

/-- An attempt as the request is, its body apart. -/
def Same (req : Outgoing) (next : Sent) : Prop :=
  next.method = req.method ∧ next.url = req.url ∧ next.header = req.header

/-- What `GetBody` has given are full copies. -/
def Copies (req : Outgoing) (seen : List Event) : Prop :=
  ∀ bytes, .copied bytes ∈ seen → bytes = req.body.bytes

/-- The body of the attempt `i`, counted from zero, is all of the request's: the body the caller
gave can be read once. -/
def Whole (req : Outgoing) (i : Nat) : Payload → Prop
  | .original => i = 0 ∨ req.body.bytes = []
  | .copy bytes => bytes = req.body.bytes

/-- A response that the base transport has answered. -/
def Obtained (seen : List Event) (h : Held) : Prop :=
  ∃ i next, h.attempt = i + 1 ∧ (sends seen)[i]? = some (next, .ok h.response)

/-- Only what can be replayed is sent again. -/
structure Replays (req : Outgoing) (seen : List Event) : Prop where
  once : Unrepeatable req → (sends seen).length ≤ 1
  thrice : (sends seen).length ≤ 3
  same : ∀ s ∈ sends seen, Same req s.1
  whole : Copies req seen → ∀ i s, (sends seen)[i]? = some s → Whole req i s.1.body
  again : ∀ s ∈ (sends seen).dropLast, again s.2 = true
  refused : .refused ∈ seen → sends seen = []

/-- What becomes of the bodies. -/
structure Settled (req : Outgoing) (seen : List Event) (out : Option Held × Option Err) : Prop where
  one : out.1.isSome = !out.2.isSome
  closed : ∀ h, Obtained seen h → out.1 ≠ some h → .closed h.attempt ∈ seen
  returned : ∀ h, out.1 = some h → Obtained seen h ∧ .closed h.attempt ∉ seen
  body : req.body ≠ .nil → (∃ s ∈ sends seen, s.1.body = .original) ∨ .closedBody ∈ seen

/-! ## The ledger -/

variable {req : Outgoing} {seen : List Event} {vars : Vars}

/-- What has been shown, and the variables of the closures. -/
structure Ledger (req : Outgoing) (seen : List Event) (vars : Vars) : Prop where
  count : vars.attempt = (sends seen).length
  same : ∀ s ∈ sends seen, Same req s.1
  whole : Copies req seen → ∀ i s, (sends seen)[i]? = some s → Whole req i s.1.body
  handed : ∀ s, (sends seen)[0]? = some s → s.1.body = .original
  held : ∀ h, vars.response = some h → Obtained seen h
  released : ∀ h, Obtained seen h → vars.response = some h ∨ .closed h.attempt ∈ seen
  numbered : ∀ n, .closed n ∈ seen → n ≤ vars.attempt

theorem sends_append (seen seen' : List Event) :
    sends (seen ++ seen') = sends seen ++ sends seen' :=
  List.filterMap_append

theorem Copies.before {seen' : List Event} (h : Copies req (seen ++ seen')) : Copies req seen :=
  fun bytes mem => h bytes (List.mem_append_left _ mem)

theorem Obtained.attempt_le {h : Held} (obtained : Obtained seen h) :
    h.attempt ≤ (sends seen).length := by
  obtain ⟨i, next, number, found⟩ := obtained
  rw [number]
  exact (List.getElem?_eq_some_iff.mp found).1

theorem ledger_start (req : Outgoing) {seen : List Event} (unsent : sends seen = [])
    (unclosed : ∀ n, .closed n ∉ seen) : Ledger req seen ⟨none, 0⟩ where
  count := by rw [unsent]; rfl
  same := by rw [unsent]; nofun
  whole _ := by rw [unsent]; nofun
  handed := by rw [unsent]; nofun
  held := nofun
  released h obtained := by
    obtain ⟨i, next, _, found⟩ := obtained
    rw [unsent] at found
    cases found
  numbered n mem := absurd mem (unclosed n)

/-- A call besides those to the base transport. -/
theorem Ledger.noted (h : Ledger req seen vars) {ev : Event} (unsent : sends [ev] = [])
    (number : ∀ n, ev = .closed n → n ≤ vars.attempt) : Ledger req (seen ++ [ev]) vars := by
  have sends_eq : sends (seen ++ [ev]) = sends seen := by rw [sends_append, unsent, List.append_nil]
  have obtained_iff : ∀ held, Obtained (seen ++ [ev]) held ↔ Obtained seen held := by
    intro held
    rw [Obtained, Obtained, sends_eq]
  refine ⟨?_, ?_, ?_, ?_, ?_, ?_, ?_⟩
  · rw [sends_eq]
    exact h.count
  · rw [sends_eq]
    exact h.same
  · rw [sends_eq]
    exact fun full => h.whole full.before
  · rw [sends_eq]
    exact h.handed
  · intro held isHeld
    exact (obtained_iff held).mpr (h.held held isHeld)
  · intro held obtained
    rcases h.released held ((obtained_iff held).mp obtained) with isHeld | closed
    · exact .inl isHeld
    · exact .inr (List.mem_append_left _ closed)
  · intro n mem
    rcases List.mem_append.mp mem with mem | mem
    · exact h.numbered n mem
    · exact number n (List.mem_singleton.mp mem).symm

/-- The request of an attempt. -/
def nextSent (req : Outgoing) (body : Payload) : Sent := ⟨req.method, req.url, req.header, body⟩

/-- A response that one more attempt has answered. -/
theorem obtained_sent {next : Sent} {answer : Except Fault Response} {h : Held}
    (obtained : Obtained (seen ++ [.sent next answer]) h) :
    Obtained seen h ∨ (h.attempt = (sends seen).length + 1 ∧ answer = .ok h.response) := by
  obtain ⟨i, next', number, found⟩ := obtained
  rw [sends_append] at found
  rcases Rows.getElem?_concat found with old | ⟨rfl, new⟩
  · exact .inl ⟨i, next', number, old⟩
  · exact .inr ⟨number, (congrArg Prod.snd new).symm⟩

theorem Obtained.sent {h : Held} (obtained : Obtained seen h) (ev : Event) :
    Obtained (seen ++ [ev]) h := by
  obtain ⟨i, next, number, found⟩ := obtained
  refine ⟨i, next, number, ?_⟩
  rw [sends_append, List.getElem?_append_left (List.getElem?_eq_some_iff.mp found).1, found]

/-- One more attempt: what is held is overwritten, so it was to be closed. -/
theorem Ledger.sent (h : Ledger req seen vars) {body : Payload}
    (closed : ∀ held, vars.response = some held → .closed held.attempt ∈ seen)
    (whole : Copies req seen → Whole req vars.attempt body)
    (first : vars.attempt = 0 → body = .original) (answer : Except Fault Response) :
    Ledger req (seen ++ [.sent (nextSent req body) answer]) (answered vars answer).2 := by
  have sends_eq : sends (seen ++ [.sent (nextSent req body) answer]) = sends seen ++
    [(nextSent req body, answer)] :=
    sends_append _ _
  have number : (answered vars answer).2.attempt = vars.attempt + 1 := by cases answer <;> rfl
  refine ⟨?_, ?_, ?_, ?_, ?_, ?_, ?_⟩
  · rw [sends_eq, number, h.count, List.length_append]
    rfl
  · rw [sends_eq]
    intro s mem
    rcases List.mem_append.mp mem with mem | mem
    · exact h.same s mem
    · rw [List.mem_singleton.mp mem]
      exact ⟨rfl, rfl, rfl⟩
  · rw [sends_eq]
    intro full i s found
    rcases Rows.getElem?_concat found with old | ⟨rfl, rfl⟩
    · exact h.whole full.before i s old
    · rw [← h.count]
      exact whole full.before
  · rw [sends_eq]
    intro s found
    rcases Rows.getElem?_concat found with old | ⟨zero, rfl⟩
    · exact h.handed s old
    · exact first (h.count.trans zero.symm)
  · intro held isHeld
    cases answer with
    | error f => cases isHeld
    | ok response =>
      cases isHeld
      refine ⟨vars.attempt, nextSent req body, rfl, ?_⟩
      rw [sends_eq, h.count]
      exact List.getElem?_concat_length
  · intro held obtained
    rcases obtained_sent obtained with old | ⟨attempt, rfl⟩
    · refine .inr (List.mem_append_left _ ?_)
      rcases h.released held old with isHeld | closed'
      · exact closed held isHeld
      · exact closed'
    · left
      rw [← h.count] at attempt
      obtain ⟨_, response⟩ := held
      cases attempt
      rfl
  · intro n mem
    rcases List.mem_append.mp mem with mem | mem
    · have le := h.numbered n mem
      omega
    · cases List.mem_singleton.mp mem

/-! ## The attempts -/

/-- Between two attempts, with `n` calls of the policy made. -/
structure Going (req : Outgoing) (n : Nat) (seen : List Event) (vars : Vars) : Prop where
  ledger : Ledger req seen vars
  number : vars.attempt ≤ n
  again : ∀ s ∈ sends seen, again s.2 = true
  safe : 0 < n → safe req = true
  admitted : .refused ∉ seen

/-- After the last of them. -/
structure Gone (req : Outgoing) (seen : List Event) (v : Option Err × Vars) : Prop where
  ledger : Ledger req seen v.2
  number : v.2.attempt ≤ 3
  once : safe req = false → v.2.attempt ≤ 1
  again : ∀ s ∈ (sends seen).dropLast, again s.2 = true
  open_ : v.1 = none ∨ v.1 = some .temporary →
    ∃ response, v.2.response = some ⟨v.2.attempt, response⟩ ∧ .closed v.2.attempt ∉ seen
  refused : .refused ∈ seen → sends seen = []

/-- A call besides those to the base transport. -/
theorem Going.noted {n : Nat} (h : Going req n seen vars) {ev : Event} (unsent : sends [ev] = [])
    (number : ∀ n, ev = .closed n → n ≤ vars.attempt) (admitted : ev ≠ .refused) :
    Going req n (seen ++ [ev]) vars where
  ledger := h.ledger.noted unsent number
  number := h.number
  again := by
    rw [sends_append, unsent, List.append_nil]
    exact h.again
  safe := h.safe
  admitted mem := by
    rcases List.mem_append.mp mem with mem | mem
    · exact h.admitted mem
    · exact admitted (List.mem_singleton.mp mem).symm

/-- What was held is closed before the next attempt. -/
theorem closeHeld_shows {n : Nat} (h : Going req n seen vars) :
    (closeHeld vars.response).Shows event fun seen' _ => Going req n (seen ++ seen') vars ∧
      ∀ held, vars.response = some held → .closed held.attempt ∈ seen ++ seen' := by
  cases response : vars.response with
  | none =>
    refine ⟨?_, nofun⟩
    rw [List.filterMap_nil, List.append_nil]
    exact h
  | some held =>
    intro _
    refine ⟨h.noted rfl ?_ nofun, ?_⟩
    · rintro n ⟨⟩
      have le := (h.ledger.held held response).attempt_le
      rwa [h.ledger.count]
    · rintro _ ⟨⟩
      exact List.mem_append_right _ (List.mem_singleton.mpr rfl)

/-- The body of the next attempt. -/
structure Ready (req : Outgoing) (seen : List Event) (vars : Vars) (body : Payload) : Prop where
  closed : ∀ held, vars.response = some held → .closed held.attempt ∈ seen
  whole : Copies req seen → Whole req vars.attempt body
  first : vars.attempt = 0 → body = .original

/-- A request that is sent again without `GetBody` has nothing in its body. -/
theorem bytes_of_safe (h : safe req = true) (none : req.getBody = false) : req.body.bytes = [] := by
  simp only [safe, none, Bool.false_eq_true, or_false, decide_eq_true_eq] at h
  rcases h.2 with nil | noBody
  · rw [nil]
    rfl
  · rw [noBody]
    rfl

theorem safe_of_unrepeatable (h : Unrepeatable req) : safe req = false := by
  rw [safe, decide_eq_false_iff_not]
  rintro ⟨method, body⟩
  rcases h with ⟨get, head, put⟩ | ⟨⟨bytes, stream⟩, none⟩
  · rcases method with method | method | method
    · exact get method
    · exact head method
    · exact put method
  · rw [stream, none] at body
    simp at body

theorem nextBody_shows {n : Nat} (h : Going req n seen vars) :
    (nextBody req vars).Shows event fun seen' body => Going req n (seen ++ seen') vars ∧
      ∀ payload, body = .ok payload → Ready req (seen ++ seen') vars payload := by
  rw [nextBody]
  split
  · next sent =>
    have safe := h.safe (by have := h.number; omega)
    refine (closeHeld_shows h).bind fun seen' _ mid => ?_
    obtain ⟨going, closed⟩ := mid
    split
    · intro answer
      cases answer with
      | error f =>
        refine ⟨?_, nofun⟩
        show Going req n (seen ++ (seen' ++ [])) vars
        rw [List.append_nil]
        exact going
      | ok bytes =>
        have noted : Going req n (seen ++ seen' ++ [.copied bytes]) vars :=
          going.noted rfl nofun nofun
        rw [List.append_assoc] at noted
        refine ⟨noted, ?_⟩
        rintro _ ⟨⟩
        refine ⟨fun held isHeld => ?_, fun full => ?_, fun zero => by omega⟩
        · rw [← List.append_assoc]
          exact List.mem_append_left _ (closed held isHeld)
        · exact full bytes
            (List.mem_append_right _ (List.mem_append_right _ (List.mem_singleton.mpr rfl)))
    · next without =>
      show Going req n (seen ++ (seen' ++ [])) vars ∧ ∀ payload, _ →
        Ready req (seen ++ (seen' ++ [])) vars payload
      rw [List.append_nil]
      refine ⟨going, ?_⟩
      rintro _ ⟨⟩
      exact ⟨closed, fun _ =>
        .inr (bytes_of_safe safe (Bool.eq_false_iff.mpr without)), fun _ => rfl⟩
  · next first =>
    have zero : vars.attempt = 0 := by omega
    show Going req n (seen ++ []) vars ∧ ∀ payload, _ → Ready req (seen ++ []) vars payload
    rw [List.append_nil]
    refine ⟨h, ?_⟩
    rintro _ ⟨⟩
    refine ⟨fun held isHeld => ?_, fun _ => .inl zero, fun _ => rfl⟩
    obtain ⟨i, _, number, found⟩ := h.ledger.held held isHeld
    have bound := (List.getElem?_eq_some_iff.mp found).1
    have count := h.ledger.count
    omega

/-- No attempt is made: the error stands, or the policy goes on. -/
theorem Going.unsent {n : Nat} (h : Going req n seen vars) (budget : n ≤ 3) {e : Err}
    (ne : e ≠ .temporary) :
    Gone req seen (some e, vars) where
  ledger := h.ledger
  number := Nat.le_trans h.number budget
  once notSafe := by
    have number := h.number
    have zero : ¬ 0 < n := fun pos => by
      rw [h.safe pos] at notSafe
      cases notSafe
    show vars.attempt ≤ 1
    omega
  again s mem := h.again s ((List.dropLast_sublist _).subset mem)
  open_ ends := by
    rcases ends with ends | ends
    · cases ends
    · exact absurd (Option.some.inj ends) ne
  refused mem := absurd mem h.admitted

/-- An attempt is made. -/
theorem Going.sent {n : Nat} (h : Going req n seen vars) (budget : n < 3) {body : Payload}
    (ready : Ready req seen vars body) (answer : Except Fault Response) :
    Gone req (seen ++ [.sent (nextSent req body) answer]) (answered vars answer) := by
  have number : (answered vars answer).2.attempt = vars.attempt + 1 := by cases answer <;> rfl
  have made := h.number
  refine ⟨h.ledger.sent ready.closed ready.whole ready.first answer, ?_, ?_, ?_, ?_, ?_⟩
  · omega
  · intro notSafe
    have zero : ¬ 0 < n := fun pos => by
      rw [h.safe pos] at notSafe
      cases notSafe
    omega
  · have sends_eq : sends (seen ++ [.sent (nextSent req body) answer]) = sends seen ++
      [(nextSent req body, answer)] :=
      sends_append _ _
    rw [sends_eq, List.dropLast_concat]
    exact h.again
  · intro ends
    cases answer with
    | error f =>
      rcases ends with ends | ends
      · cases ends
      · cases ends
    | ok response =>
      refine ⟨response, rfl, fun mem => ?_⟩
      rcases List.mem_append.mp mem with mem | mem
      · have le : vars.attempt + 1 ≤ vars.attempt := h.ledger.numbered _ mem
        omega
      · cases List.mem_singleton.mp mem
  · intro mem
    rcases List.mem_append.mp mem with mem | mem
    · exact absurd mem h.admitted
    · cases List.mem_singleton.mp mem

/-- An attempt whose error may be repeated. -/
theorem Going.next {n : Nat} (h : Going req n seen vars) {body : Payload}
    (ready : Ready req seen vars body) {answer : Except Fault Response} {e : Err}
    (err : (answered vars answer).1 = some e) (retry : retryable req e = true) :
    Going req (n + 1) (seen ++ [.sent (nextSent req body) answer]) (answered vars answer).2 := by
  have number : (answered vars answer).2.attempt = vars.attempt + 1 := by cases answer <;> rfl
  have made := h.number
  have repeated : Http.safe req = true ∧ Http.again answer = true := by
    cases answer with
    | error f =>
      cases err
      exact Bool.and_eq_true_iff.mp retry
    | ok response =>
      simp only [answered] at err
      split at err
      · next temporary =>
        cases err
        exact ⟨retry, temporary⟩
      · cases err
  refine ⟨h.ledger.sent ready.closed ready.whole ready.first answer, by omega, ?_,
    fun _ => repeated.1, ?_⟩
  · intro s mem
    rw [sends_append] at mem
    rcases List.mem_append.mp mem with mem | mem
    · exact h.again s mem
    · rw [List.mem_singleton.mp mem]
      exact repeated.2
  · intro mem
    rcases List.mem_append.mp mem with mem | mem
    · exact h.admitted mem
    · cases List.mem_singleton.mp mem

/-- One call of the policy. -/
theorem call_shows {n : Nat} (budget : n < 3) (h : Going req n seen vars) :
    (call req vars).Shows event fun seen' v => Gone req (seen ++ seen') v ∧
      ∀ e, v.1 = some e → retryable req e = true → Going req (n + 1) (seen ++ seen') v.2 := by
  refine (nextBody_shows h).bind fun seen' body mid => ?_
  obtain ⟨going, ready⟩ := mid
  cases body with
  | error f =>
    show Gone req (seen ++ (seen' ++ [])) _ ∧ ∀ e, _ → _ →
      Going req (n + 1) (seen ++ (seen' ++ [])) vars
    rw [List.append_nil]
    refine ⟨going.unsent (Nat.le_of_lt budget) nofun, ?_⟩
    rintro e ⟨⟩ retry
    have safe := (Bool.and_eq_true_iff.mp retry).1
    exact ⟨going.ledger, Nat.le_succ_of_le going.number, going.again, fun _ => safe, going.admitted⟩
  | ok body =>
    intro answer
    show Gone req (seen ++ (seen' ++ [.sent (nextSent req body) answer])) _ ∧
      ∀ e, _ → _ → Going req (n + 1) (seen ++ (seen' ++ [.sent (nextSent req body) answer])) _
    rw [← List.append_assoc]
    exact ⟨going.sent budget (ready body rfl) answer, fun e err retry =>
      going.next (ready body rfl) err retry⟩

/-! ## The breaker, and the end -/

theorem retrier_silent : retrier.Silent event fun e => ∃ how, e = Err.ended how where
  err looked := by
    refine ⟨rfl, fun e is => ?_⟩
    obtain ⟨how, _, eq⟩ := Option.map_eq_some_iff.mp is
    exact ⟨how, eq.symm⟩
  retried _ := ⟨rfl, trivial⟩
  exhausted _ := ⟨rfl, trivial⟩
  draw _ := ⟨rfl, trivial⟩
  wait _ waited := by
    refine ⟨rfl, fun e is => ?_⟩
    obtain ⟨how, _, eq⟩ := Option.map_eq_some_iff.mp is
    exact ⟨how, eq.symm⟩

/-- Before the first attempt. -/
theorem going_start (req : Outgoing) : Going req 0 [] ⟨none, 0⟩ where
  ledger := ledger_start req rfl nofun
  number := Nat.le_refl 0
  again := nofun
  safe := nofun
  admitted := nofun

/-- The attempts of a policy. -/
theorem policy_shows (req : Outgoing) :
    (policy.do_ retrier (retryable req) (call req) ⟨none, 0⟩).Shows event (Gone req) := by
  refine Policy.do_shows (J := fun n seen vars => n ≤ 3 ∧ Going req n seen vars) policy
    retrier_silent ?_ ?_
    ⟨Nat.zero_le 3, going_start req⟩
  · intro n seen vars budget before
    have three : n < 3 := budget
    refine (call_shows three before.2).mono fun seen' v post => ⟨post.1, fun e err retry => ?_⟩
    exact ⟨three, post.2 e err retry⟩
  · rintro n seen vars _ ⟨budget, before⟩ ⟨how, rfl⟩
    exact before.unsent budget nofun

/-- The breaker has refused. -/
theorem gone_refused (req : Outgoing) : Gone req [.refused] (some .open_, ⟨none, 0⟩) where
  ledger := ledger_start req rfl (fun n mem => by cases List.mem_singleton.mp mem)
  number := Nat.zero_le 3
  once _ := Nat.zero_le 1
  again := nofun
  open_ ends := by
    rcases ends with ends | ends
    · cases ends
    · cases ends
  refused _ := rfl

/-- The attempts, through the breaker. -/
theorem breaker_shows (req : Outgoing) :
    (breaker.do_ ⟨none, 0⟩ (policy.do_ retrier (retryable req) (call req) ⟨none, 0⟩)).Shows event
      (Gone req) := by
  refine retrier_silent.err.silent fun looked ok => ?_
  cases looked with
  | some e =>
    obtain ⟨how, rfl⟩ := ok e rfl
    exact (going_start req).unsent (Nat.zero_le 3) nofun
  | none =>
    intro generation
    cases generation with
    | none => exact gone_refused req
    | some generation =>
      refine (policy_shows req).bind fun seen v gone => ?_
      intro _
      show Gone req (seen ++ []) v
      rw [List.append_nil]
      exact gone

/-- What has been sent, whatever is closed at the end. -/
theorem Gone.replays {v : Option Err × Vars} (h : Gone req seen v) {closing : List Event}
    (unsent : sends closing = []) (quiet : .refused ∉ closing) : Replays req (seen ++ closing) := by
  have sends_eq : sends (seen ++ closing) = sends seen := by
    rw [sends_append, unsent, List.append_nil]
  have count := h.ledger.count
  refine ⟨?_, ?_, ?_, ?_, ?_, ?_⟩
  · intro unrepeatable
    rw [sends_eq, ← count]
    exact h.once (safe_of_unrepeatable unrepeatable)
  · rw [sends_eq, ← count]
    exact h.number
  · rw [sends_eq]
    exact h.ledger.same
  · rw [sends_eq]
    exact fun full => h.ledger.whole full.before
  · rw [sends_eq]
    exact h.again
  · rw [sends_eq]
    intro mem
    rcases List.mem_append.mp mem with mem | mem
    · exact h.refused mem
    · exact absurd mem quiet

/-- The body of the request was handed on with the first attempt. -/
theorem Ledger.original (h : Ledger req seen vars) (sent : vars.attempt ≠ 0) :
    ∃ s ∈ sends seen, s.1.body = .original := by
  cases eq : sends seen with
  | nil =>
    have count := h.count
    rw [eq] at count
    exact absurd count sent
  | cons s rest => exact ⟨s, List.mem_cons_self, h.handed s (by rw [eq]; rfl)⟩

/-- A response is returned. -/
theorem Gone.settled {err : Option Err} {vars : Vars} (h : Gone req seen (err, vars))
    (ends : err = none ∨ err = some .temporary) : Settled req seen (vars.response, none) := by
  obtain ⟨response, isHeld, unclosed⟩ := h.open_ ends
  replace isHeld : vars.response = some ⟨vars.attempt, response⟩ := isHeld
  have obtained := h.ledger.held _ isHeld
  refine ⟨?_, ?_, ?_, ?_⟩
  · rw [isHeld]
    rfl
  · intro held obtained ne
    exact (h.ledger.released held obtained).resolve_left ne
  · rw [isHeld]
    rintro _ ⟨⟩
    exact ⟨obtained, unclosed⟩
  · intro _
    refine .inl (h.ledger.original ?_)
    obtain ⟨i, _, number, _⟩ := obtained
    replace number : vars.attempt = i + 1 := number
    rw [number]
    exact Nat.succ_ne_zero i

/-- An error is returned, and what is left is closed. -/
theorem Ledger.settled (h : Ledger req seen vars) {e : Err} {closing : List Event}
    (unsent : sends closing = [])
    (closed : ∀ held, vars.response = some held → .closed held.attempt ∈ closing)
    (body : vars.attempt = 0 → req.body ≠ .nil → .closedBody ∈ closing) :
    Settled req (seen ++ closing) (none, some e) := by
  have sends_eq : sends (seen ++ closing) = sends seen := by
    rw [sends_append, unsent, List.append_nil]
  refine ⟨rfl, ?_, nofun, ?_⟩
  · intro held obtained _
    rw [Obtained, sends_eq] at obtained
    rcases h.released held obtained with isHeld | before
    · exact List.mem_append_right _ (closed held isHeld)
    · exact List.mem_append_left _ before
  · intro present
    rw [sends_eq]
    by_cases sent : vars.attempt = 0
    · exact .inr (List.mem_append_right _ (body sent present))
    · exact .inl (h.original sent)

/-- What is closed after an error. -/
def closings (req : Outgoing) (vars : Vars) : List Event :=
  (vars.response.map fun held => Event.closed held.attempt).toList ++
    if vars.attempt = 0 ∧ req.body ≠ .nil then [.closedBody] else []

theorem failed_shows (req : Outgoing) (vars : Vars) (e : Err) :
    (failed req vars e).Shows event fun closing out => closing = closings req vars ∧
    out = (none, some e) := by
  rw [failed, closings]
  cases vars.response with
  | none =>
    by_cases unsent : vars.attempt = 0 ∧ req.body ≠ .nil
    · rw [if_pos unsent, if_pos unsent]
      exact fun _ => ⟨rfl, rfl⟩
    · rw [if_neg unsent, if_neg unsent]
      exact ⟨rfl, rfl⟩
  | some held =>
    by_cases unsent : vars.attempt = 0 ∧ req.body ≠ .nil
    · rw [if_pos unsent, if_pos unsent]
      exact fun _ _ => ⟨rfl, rfl⟩
    · rw [if_neg unsent, if_neg unsent]
      exact fun _ => ⟨rfl, rfl⟩

theorem sends_closings (req : Outgoing) (vars : Vars) : sends (closings req vars) = [] := by
  rw [closings]
  cases vars.response <;> split <;> rfl

/-- The end of `RoundTrip`. -/
theorem finish_shows {v : Option Err × Vars} (h : Gone req seen v) :
    (finish req v).Shows event fun closing out => Replays req (seen ++ closing) ∧
    Settled req (seen ++ closing) out := by
  obtain ⟨err, vars⟩ := v
  have response : err = none ∨ err = some .temporary →
      Replays req (seen ++ []) ∧ Settled req (seen ++ []) (vars.response, none) := by
    intro ends
    refine ⟨h.replays rfl nofun, ?_⟩
    rw [List.append_nil]
    exact h.settled ends
  have failure : ∀ e, (failed req vars e).Shows event fun closing out =>
      Replays req (seen ++ closing) ∧ Settled req (seen ++ closing) out := by
    intro e
    refine (failed_shows req vars e).mono ?_
    rintro _ _ ⟨rfl, rfl⟩
    refine ⟨h.replays (sends_closings req vars) ?_,
      h.ledger.settled (sends_closings req vars) ?_ ?_⟩
    · simp [closings]
    · intro held isHeld
      replace isHeld : vars.response = some held := isHeld
      simp [closings, isHeld]
    · intro unsent present
      replace unsent : vars.attempt = 0 := unsent
      simp [closings, unsent, present]
  cases err with
  | none => exact response (.inl rfl)
  | some e =>
    cases e with
    | temporary => exact response (.inr rfl)
    | open_ => exact failure .open_
    | ended how => exact failure (.ended how)
    | fault f => exact failure (.fault f)

theorem roundTrip_shows (req : Outgoing) :
    (roundTrip req).Shows event fun seen out => Replays req seen ∧ Settled req seen out :=
  (breaker_shows req).bind fun _ _ gone => finish_shows gone

/-- **Retries.** Whatever the base transport, `GetBody`, the breaker and the context answer, only
what can be replayed is sent again. -/
theorem only_replayable_repeated (req : Outgoing) :
    (roundTrip req).Shows event fun seen _ => Replays req seen :=
  (roundTrip_shows req).mono fun _ _ post => post.1

/-- **Bodies.** Whatever they answer, each body has one owner in the end, or is closed. -/
theorem bodies_settled (req : Outgoing) : (roundTrip req).Shows event (Settled req) :=
  (roundTrip_shows req).mono fun _ _ post => post.2

end OtusApp.Resilience.Http
