import OtusApp.Lib.Program

/-!
# Requests that keep apart

Runs of a machine in which requests with one key are not under way at once. Requests with different
keys, or without one, are, in any number and in any order.

What a request does to the things of its own key is proved by symbolic execution, as if it were
alone; of the others it is enough that they leave those things as they are. Then, whenever no
request with a key is under way, the things of that key are as the last one left them
(`Apart.rest`).
-/

namespace Program

open Transition

variable {Q E : Type} {R : E → Type} {α S C B K : Type}

/-- Request `i` has the key and is under way. -/
def Holds (key : Q → Option K) (procs : List (Q × Prog E R α)) (k : K) (i : Nat) : Prop :=
  ∃ q e next, procs[i]? = some (q, .call e next) ∧ key q = some k

/-- A request with the key is under way. -/
def Busy (key : Q → Option K) (w : Pool Q E R α S) (k : K) : Prop := ∃ i, Holds key w.procs k i

namespace Machine

variable (m : Machine Q E R α S C B)

/-- The runs in which no two requests with one key are under way at once, and the choices are those
`allows` admits. -/
def apart (init : S → Prop) (allows : C → Prop) (key : Q → Option K) :
    System (Pool Q E R α S) (Move Q C B) :=
  (m.system init).restrict fun w mv =>
    match mv with
    | .arrive q => ∀ k, key q = some k → ¬ Busy key w k
    | .go _ c => allows c
    | .background _ => True

/-- What can be checked of a move: no request with the same key is under way. -/
def separate [DecidableEq K] (key : Q → Option K) (allows : C → Bool) (w : Pool Q E R α S) :
    Move Q C B → Bool
  | .arrive q => w.procs.all fun p => Pool.returned p.2 || key p.1 ≠ key q
  | .go _ c => allows c
  | .background _ => true

/-- A replay that keeps requests with one key apart is a run. -/
theorem apart_of_separate [DecidableEq K] {init : S → Prop} {allows : C → Prop}
    [DecidablePred allows] {key : Q → Option K} {w w' : Pool Q E R α S} {moves : List (Move Q C B)}
    (h : System.replay (fun w mv => if separate key (fun c => decide (allows c)) w mv
      then m.step w mv else none) w moves = some w') :
    (m.apart init allows key).Runs w w' := by
  refine System.Runs.of_checked ?_ h
  intro w mv checked
  cases mv with
  | arrive q =>
    rintro k mine ⟨i, q', e, next, runs, theirs⟩
    have done := List.all_eq_true.mp checked _ (List.mem_of_getElem? runs)
    simp [Pool.returned, mine, theirs] at done
  | go i c => exact of_decide_eq_true checked
  | background b => trivial

/-- What is asked of the requests: `I k` is what each with the key `k` restores, `rely k` what
everything else keeps, and `touches` which calls a request makes under the answers it is `given`. -/
structure Apart (init : S → Prop) (allows : C → Prop) (key : Q → Option K) (I : K → S → Prop)
    (rely : K → S → S → Prop) (given : (e : E) → R e → Prop) (touches : Q → E → Prop) : Prop where
  start : ∀ s, init s → ∀ k, I k s
  trans : ∀ k s t r, rely k s t → rely k t r → rely k s r
  refl : ∀ k s, rely k s s
  carry : ∀ k s t, rely k s t → I k s → I k t
  arrives : ∀ k s q t, m.arrive s q = some t → rely k s t
  moves : ∀ k s b t, m.background s b = some t → rely k s t
  honest : ∀ s caller e c r t, m.respond s caller e c = some (r, t) → given e r
  touched : ∀ q, (m.handler q).AllGiven given (touches q)
  frame : ∀ k s i q e c r t, key q ≠ some k → allows c → touches q e →
    m.respond s (i, q) e c = some (r, t) → rely k s t
  triple : ∀ k i q s, key q = some k → I k s →
    (m.handler q).Safe (rely k) (m.answers allows (i, q)) (fun _ t => I k t) s

/-- Where a run stands with a key: no request has it, and the things of the key are as they should
be; or one request has it, and restores them by itself. -/
structure Apart.Stands (allows : C → Prop) (key : Q → Option K) (I : K → S → Prop)
    (rely : K → S → S → Prop) (k : K) (w : Pool Q E R α S) : Prop where
  rest : ¬ Busy key w k → I k w.env
  alone : ∀ i j, Holds key w.procs k i → Holds key w.procs k j → i = j
  safe : ∀ (i : Nat) q e next, w.procs[i]? = some (q, .call e next) → key q = some k →
    (Prog.call e next).Safe (rely k) (m.answers allows (i, q)) (fun _ t => I k t) w.env

variable {m} {init : S → Prop} {allows : C → Prop} {key : Q → Option K} {I : K → S → Prop}
  {rely : K → S → S → Prop} {given : (e : E) → R e → Prop} {touches : Q → E → Prop} {k : K}

/-- Everything around the requests with a key moves. -/
theorem Apart.Stands.moved (h : m.Apart init allows key I rely given touches) {env : S}
    {procs procs' : List (Q × Prog E R α)} {answered answered' : List (Q × α × S)}
    (stands : Stands m allows key I rely k ⟨env, procs, answered⟩) {env' : S}
    (move : rely k env env')
    (same : ∀ (i : Nat) q e next, key q = some k →
      (procs'[i]? = some (q, .call e next) ↔ procs[i]? = some (q, .call e next))) :
    Stands m allows key I rely k ⟨env', procs', answered'⟩ := by
  have holds : ∀ i, Holds key procs' k i ↔ Holds key procs k i := by
    intro i
    constructor
    · rintro ⟨q, e, next, runs, mine⟩
      exact ⟨q, e, next, (same i q e next mine).mp runs, mine⟩
    · rintro ⟨q, e, next, runs, mine⟩
      exact ⟨q, e, next, (same i q e next mine).mpr runs, mine⟩
  refine ⟨?_, ?_, ?_⟩
  · intro idle
    refine h.carry k _ _ move (stands.rest ?_)
    rintro ⟨i, busy⟩
    exact idle ⟨i, (holds i).mpr busy⟩
  · intro i j first second
    exact stands.alone i j ((holds i).mp first) ((holds j).mp second)
  · intro i q e next runs mine
    have safe := stands.safe i q e next ((same i q e next mine).mp runs) mine
    exact safe.moved (fun {s t r} => h.trans k s t r) move

/-- The request with the key makes its step, and no other has the key. -/
theorem Apart.Stands.stepped {env : S} {procs : List (Q × Prog E R α)} {answered : List (Q × α × S)}
    {i : Nat} {q : Q} {p : Prog E R α} (mine : key q = some k) (runs : procs[i]? = some (q, p))
    (only : ∀ j, Holds key procs k j → j = i)
    (safe : p.Safe (rely k) (m.answers allows (i, q)) (fun _ t => I k t) env) :
    Stands m allows key I rely k ⟨env, procs, answered⟩ := by
  refine ⟨?_, ?_, ?_⟩
  · intro idle
    cases p with
    | ret a => exact safe
    | call e next => exact absurd ⟨i, q, e, next, runs, mine⟩ idle
  · intro j j' first second
    rw [only j first, only j' second]
  · intro j q' e next runs' mine'
    obtain rfl := only j ⟨q', e, next, runs', mine'⟩
    rw [runs] at runs'
    cases runs'
    exact safe

theorem Apart.stands (h : m.Apart init allows key I rely given touches) {w : Pool Q E R α S}
    (reached : (m.apart init allows key).Reachable w) : Stands m allows key I rely k w := by
  refine reached.invariant ?_ ?_
  · rintro w ⟨begins, none, _⟩
    have free : ∀ i, ¬ Holds key w.procs k i := by
      rintro i ⟨q, e, next, runs, _⟩
      rw [none] at runs
      cases runs
    refine ⟨fun _ => h.start _ begins k, fun i _ first => absurd first (free i), ?_⟩
    intro i q e next runs mine
    exact absurd ⟨q, e, next, runs, mine⟩ (free i)
  · rintro w mv w' reached ih ⟨admitted, hstep⟩
    cases Machine.stepped hstep with
    | @arrive q env taken =>
      by_cases mine : key q = some k
      · have idle : ¬ Busy key w k := admitted k mine
        have restored := h.carry k _ _ (h.arrives k _ _ _ taken) (ih.rest idle)
        refine .stepped mine List.getElem?_concat_length ?_ (h.triple k _ q env mine restored)
        rintro j ⟨q', e, next, runs, mine'⟩
        rcases Nat.lt_or_ge j w.procs.length with earlier | last
        · rw [List.getElem?_append_left earlier] at runs
          exact absurd ⟨j, q', e, next, runs, mine'⟩ idle
        · obtain ⟨bound, _⟩ := List.getElem?_eq_some_iff.mp runs
          rw [List.length_append, List.length_singleton] at bound
          omega
      · refine Stands.moved h ih (h.arrives k _ _ _ taken) ?_
        intro i q' e next mine'
        rcases Nat.lt_or_ge i w.procs.length with earlier | last
        · rw [List.getElem?_append_left earlier]
        · rw [List.getElem?_append_right last, List.getElem?_eq_none last]
          refine ⟨fun runs => ?_, fun none => by cases none⟩
          have same := List.mem_singleton.mp (List.mem_of_getElem? runs)
          exact absurd ((Prod.mk.inj same).1 ▸ mine') mine
    | @go i c q e next r env runs answers =>
      have hi : i < w.procs.length := (List.getElem?_eq_some_iff.mp runs).1
      by_cases mine : key q = some k
      · refine .stepped mine (List.getElem?_set_self hi) ?_
          (ih.safe i q e next runs mine w.env (h.refl k _) r env ⟨c, admitted, answers⟩)
        rintro j ⟨q', e', next', runs', mine'⟩
        by_contra other
        rw [List.getElem?_set_ne (Ne.symm other)] at runs'
        exact other (ih.alone j i ⟨q', e', next', runs', mine'⟩ ⟨q, e, next, runs, mine⟩)
      · have asked : touches q e :=
          (Machine.asks_given h.honest h.touched reached.of_restrict q _
            (List.mem_of_getElem? runs)).1
        refine Stands.moved h ih (h.frame k _ i q e c r env mine admitted asked answers) ?_
        intro j q' e' next' mine'
        by_cases own : j = i
        · subst own
          -- the request at this place has another key, before the step and after it
          rw [List.getElem?_set_self hi, runs]
          constructor
          · intro same
            exact absurd ((Prod.mk.inj (Option.some.inj same)).1 ▸ mine') mine
          · intro same
            exact absurd ((Prod.mk.inj (Option.some.inj same)).1 ▸ mine') mine
        · rw [List.getElem?_set_ne (Ne.symm own)]
    | @background b env quiet =>
      exact Stands.moved h ih (h.moves k _ b _ quiet) fun _ _ _ _ _ => Iff.rfl

/-- **Apart.** Whenever no request with a key is under way, the things of the key are as they
should. -/
theorem Apart.rest (h : m.Apart init allows key I rely given touches) {w : Pool Q E R α S}
    (reached : (m.apart init allows key).Reachable w) (idle : ¬ Busy key w k) : I k w.env :=
  (h.stands reached).rest idle

end Machine

end Program
