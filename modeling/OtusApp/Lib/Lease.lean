import Mathlib.Data.List.Basic
import Mathlib.Order.Basic

/-!
# Leases with fencing tokens

Rows are leased for a time under a token that is never drawn twice. A history lists the operations
that took effect, newest first: a claim, which leases a row until an instant; a release, which gives
it back under its token and says from when it may be claimed again; an end, after which the row is
never leased. `History` says when an operation may follow: a claim when the last operation on its
row leaves the row free, a release or an end under the token of the last claim.

`exclusive` is what a lease is for: two claims of one row are a lease apart, or the first was
released. `holder_iff` is what a token is for: the holder of a row is the token of its last claim,
until an operation carries that token. Rows, tokens and instants are arbitrary; only the instants
are ordered.
-/

namespace Lease

universe u v w

/-- An operation on a row. -/
inductive Op (R : Type u) (K : Type v) (T : Type w)
  | claimed (time until_ : T) (token : K) (row : R)
  | released (time from_ : T) (token : K) (row : R)
  | ended (time : T) (token : K) (row : R)

namespace Op

variable {R : Type u} {K : Type v} {T : Type w}

def row : Op R K T → R
  | claimed _ _ _ row => row
  | released _ _ _ row => row
  | ended _ _ row => row

def token : Op R K T → K
  | claimed _ _ token _ => token
  | released _ _ token _ => token
  | ended _ token _ => token

def time : Op R K T → T
  | claimed time _ _ _ => time
  | released time _ _ _ => time
  | ended time _ _ => time

def isClaim : Op R K T → Bool
  | claimed .. => true
  | _ => false

end Op

variable {R : Type u} {K : Type v} {T : Type w}

/-- Which operation may follow the last one on its row. -/
inductive Follows [LE T] : Op R K T → Option (Op R K T) → Prop
  | first {t u k r} : Follows (.claimed t u k r) none
  | expired {t u k r t' u' k' r'} (lapsed : u' ≤ t) :
      Follows (.claimed t u k r) (some (.claimed t' u' k' r'))
  | free {t u k r t' a k' r'} (due : a ≤ t) :
      Follows (.claimed t u k r) (some (.released t' a k' r'))
  | release {t a k r t' u r'} : Follows (.released t a k r) (some (.claimed t' u k r'))
  | finish {t k r t' u r'} : Follows (.ended t k r) (some (.claimed t' u k r'))

/-- An operation that is no claim carries the token of the claim it follows. -/
theorem Follows.claim_of [LE T] {p : Op R K T} {last : Option (Op R K T)} (f : Follows p last)
    (noClaim : p.isClaim = false) : ∃ t u r, last = some (.claimed t u p.token r) := by
  cases f with
  | first | expired | free => cases noClaim
  | release | finish => exact ⟨_, _, _, rfl⟩

/-- An operation that is not a release of the row under the token. -/
theorem mem_released_cons {token : K} {r : R} {q : Op R K T} {mid : List (Op R K T)}
    (ne : ∀ t a, q ≠ .released t a token r) (t a : T) :
    .released t a token r ∈ q :: mid ↔ .released t a token r ∈ mid := by
  refine ⟨fun mem => ?_, List.mem_cons_of_mem _⟩
  rcases List.mem_cons.mp mem with same | mem
  · exact absurd same.symm (ne t a)
  · exact mem

variable [DecidableEq R]

/-- The last operation on a row. -/
def latest (h : List (Op R K T)) (r : R) : Option (Op R K T) := h.find? fun p => p.row = r

@[simp] theorem latest_nil (r : R) : latest ([] : List (Op R K T)) r = none := rfl

theorem latest_cons_self (p : Op R K T) (h : List (Op R K T)) : latest (p :: h) p.row = some p := by
  simp [latest]

theorem latest_cons_ne {p : Op R K T} {r : R} (ne : p.row ≠ r) (h : List (Op R K T)) :
    latest (p :: h) r = latest h r := by
  simp [latest, ne]

theorem mem_of_latest {h : List (Op R K T)} {r : R} {p : Op R K T} (last : latest h r = some p) :
    p ∈ h ∧ p.row = r :=
  ⟨List.mem_of_find?_eq_some last, by simpa using List.find?_some last⟩

/-- The last operation stands behind operations on other rows only. -/
theorem split_of_latest {h : List (Op R K T)} {r : R} {p : Op R K T} (last : latest h r = some p) :
    ∃ newer older, h = newer ++ p :: older ∧ ∀ q ∈ newer, q.row ≠ r := by
  obtain ⟨_, newer, older, eq, none⟩ := List.find?_eq_some_iff_append.mp last
  exact ⟨newer, older, eq, fun q hq => by simpa using none q hq⟩

/-- A history, newest operation first: the clock does not go back, every operation follows the last
one on its row, and a claim draws a token no earlier operation carries. -/
def History [LE T] : List (Op R K T) → Prop
  | [] => True
  | p :: older => History older ∧ (∀ q ∈ older, q.time ≤ p.time) ∧ Follows p (latest older p.row) ∧
      (p.isClaim = true → ∀ q ∈ older, q.token ≠ p.token)

theorem History.of_append [LE T] {newer older : List (Op R K T)} (H : History (newer ++ older)) :
    History older := by
  induction newer with
  | nil => exact H
  | cons p newer ih => exact ih H.1

/-- A history is in the order of its clock. -/
theorem History.pairwise_time [LE T] {h : List (Op R K T)} (H : History h) :
    h.Pairwise fun p q => q.time ≤ p.time := by
  induction h with
  | nil => exact List.Pairwise.nil
  | cons p older ih => exact List.pairwise_cons.mpr ⟨H.2.1, ih H.1⟩

/-! ## The holder of a row -/

/-- The token a row is leased under. -/
def holder (h : List (Op R K T)) (r : R) : Option K :=
  match latest h r with
  | some (.claimed _ _ token _) => some token
  | _ => none

theorem holder_some {h : List (Op R K T)} {r : R} {k : K} (held : holder h r = some k) :
    ∃ t u, latest h r = some (.claimed t u k r) := by
  unfold holder at held
  split at held
  · next t u token row last =>
    cases held
    obtain rfl : row = r := (mem_of_latest last).2
    exact ⟨t, u, last⟩
  · cases held

/-- Behind an operation that is no claim stands a claim of its row under its token. -/
theorem History.claim_mem [LE T] {h : List (Op R K T)} (H : History h) {p : Op R K T} (mem : p ∈ h)
    (noClaim : p.isClaim = false) : ∃ t u, .claimed t u p.token p.row ∈ h := by
  induction h with
  | nil => cases mem
  | cons q older ih =>
    rcases List.mem_cons.mp mem with rfl | mem
    · obtain ⟨t, u, r, last⟩ := H.2.2.1.claim_of noClaim
      obtain ⟨claim, row⟩ := mem_of_latest last
      exact ⟨t, u, List.mem_cons_of_mem _ (row ▸ claim)⟩
    · obtain ⟨t, u, claim⟩ := ih H.1 mem
      exact ⟨t, u, List.mem_cons_of_mem _ claim⟩

/-- A token is drawn for one row. -/
theorem History.row_of_token [LE T] {h : List (Op R K T)} (H : History h) {t u t' u' : T} {k : K}
    {r r' : R} (mem : .claimed t u k r ∈ h) (mem' : .claimed t' u' k r' ∈ h) : r = r' := by
  induction h with
  | nil => cases mem
  | cons q older ih =>
    rcases List.mem_cons.mp mem with rfl | inOlder
    · rcases List.mem_cons.mp mem' with same | inOlder'
      · cases same
        rfl
      · exact absurd rfl (H.2.2.2 rfl (.claimed t' u' k r') inOlder')
    · rcases List.mem_cons.mp mem' with rfl | inOlder'
      · exact absurd rfl (H.2.2.2 rfl (.claimed t u k r) inOlder)
      · exact ih H.1 inOlder inOlder'

/-- **The holder of a row** is the token of its last claim, while no release and no end since has
carried that token. -/
theorem holder_iff [LE T] {h : List (Op R K T)} (H : History h) (r : R) (k : K) :
    holder h r = some k ↔ ∃ newer t u older, h = newer ++ .claimed t u k r :: older ∧
      (∀ p ∈ newer, p.row = r → p.isClaim = false) ∧
      (∀ p ∈ newer, p.isClaim = false → p.token ≠ k) := by
  constructor
  · intro held
    obtain ⟨t, u, last⟩ := holder_some held
    obtain ⟨newer, older, eq, others⟩ := split_of_latest last
    refine ⟨newer, t, u, older, eq, fun p hp row => absurd row (others p hp), ?_⟩
    intro p hp noClaim token
    -- such an operation is on the row its token was drawn for, which is `r`
    have mem : p ∈ h := by rw [eq]; exact List.mem_append_left _ hp
    obtain ⟨t', u', claim⟩ := H.claim_mem mem noClaim
    rw [token] at claim
    exact others p hp (H.row_of_token claim (mem_of_latest last).1)
  · rintro ⟨newer, t, u, older, rfl, lastClaim, unused⟩
    -- from the claim on, no operation on the row takes effect: it would carry `k`
    suffices last : latest (newer ++ .claimed t u k r :: older) r = some (.claimed t u k r) by
      simp only [holder, last]
    induction newer with
    | nil => exact latest_cons_self _ _
    | cons p newer ih =>
      have before := ih H.1 (fun q hq => lastClaim q (List.mem_cons_of_mem _ hq))
        (fun q hq => unused q (List.mem_cons_of_mem _ hq))
      by_cases row : p.row = r
      · have noClaim := lastClaim p List.mem_cons_self row
        have follows := H.2.2.1
        rw [row] at follows
        obtain ⟨t', u', r', eq⟩ := follows.claim_of noClaim
        cases before.symm.trans eq
        exact absurd rfl (unused p List.mem_cons_self noClaim)
      · rw [List.cons_append, latest_cons_ne row]
        exact before

/-! ## Exclusive leases -/

variable [Preorder T]

/-- Where a row stands after the operations `mid` that followed a claim of it until `until_` under
`token`: still leased under it, ended or released under it, or claimed again in due time. -/
inductive Since (until_ : T) (token : K) (r : R) (mid : List (Op R K T)) :
    Option (Op R K T) → Prop
  | held {t} (kept : ∀ t a, .released t a token r ∉ mid) :
      Since until_ token r mid (some (.claimed t until_ token r))
  | ended {t} (kept : ∀ t a, .released t a token r ∉ mid) :
      Since until_ token r mid (some (.ended t token r))
  | released {t a} (mem : .released t a token r ∈ mid)
      (only : ∀ t' a', .released t' a' token r ∈ mid → a' = a) :
      Since until_ token r mid (some (.released t a token r))
  | past {last : Op R K T} (p : Op R K T) (mem : p ∈ mid) (other : last.token ≠ token)
      (expired : (∀ t a, .released t a token r ∉ mid) → until_ ≤ p.time)
      (due : ∀ t a, .released t a token r ∈ mid → a ≤ p.time) :
      Since until_ token r mid (some last)

omit [DecidableEq R] in
/-- After an operation on another row. -/
theorem Since.skip {until_ : T} {token : K} {r : R} {mid : List (Op R K T)}
    {last : Option (Op R K T)} (s : Since until_ token r mid last) {q : Op R K T} (ne : q.row ≠ r) :
    Since until_ token r (q :: mid) last := by
  have same : ∀ t a, .released t a token r ∈ q :: mid ↔ .released t a token r ∈ mid :=
    mem_released_cons fun t a eq => ne (by rw [eq]; rfl)
  cases s with
  | held kept => exact .held (by simpa only [same] using kept)
  | ended kept => exact .ended (by simpa only [same] using kept)
  | released mem only =>
    exact .released (List.mem_cons_of_mem _ mem) (by simpa only [same] using only)
  | past p mem other expired due =>
    exact .past p (List.mem_cons_of_mem _ mem) other (by simpa only [same] using expired)
      (by simpa only [same] using due)

omit [DecidableEq R] in
/-- After an operation on the row. -/
theorem Since.next {until_ : T} {token : K} {r : R} {mid : List (Op R K T)}
    {last : Option (Op R K T)} (s : Since until_ token r mid last) {q : Op R K T} (row : q.row = r)
    (follows : Follows q last) (fresh : q.isClaim = true → q.token ≠ token)
    (later : ∀ p ∈ mid, p.time ≤ q.time) : Since until_ token r (q :: mid) (some q) := by
  cases s with
  | held kept =>
    cases follows with
    | expired lapsed =>
      refine .past _ List.mem_cons_self (fresh rfl) (fun _ => lapsed) ?_
      intro t a mem
      exact absurd ((mem_released_cons (by simp) t a).mp mem) (kept t a)
    | release =>
      obtain rfl := row
      refine .released List.mem_cons_self ?_
      intro t' a' mem
      rcases List.mem_cons.mp mem with same | mem
      · cases same
        rfl
      · exact absurd mem (kept t' a')
    | finish =>
      obtain rfl := row
      refine .ended ?_
      intro t a mem
      exact kept t a ((mem_released_cons (by simp) t a).mp mem)
  | ended kept => cases follows
  | released mem only =>
    cases follows with
    | free due =>
      refine .past _ List.mem_cons_self (fresh rfl) ?_ ?_
      · intro none
        exact absurd (List.mem_cons_of_mem _ mem) (none _ _)
      · intro t' a' mem'
        rw [only t' a' ((mem_released_cons (by simp) t' a').mp mem')]
        exact due
  | past p mem other expired due =>
    -- a claim becomes the witness; a release or an end is under another token and changes nothing
    by_cases claim : q.isClaim = true
    · have same : ∀ t a, .released t a token r ∈ q :: mid ↔ .released t a token r ∈ mid :=
        mem_released_cons fun t a eq => by rw [eq] at claim; cases claim
      refine .past q List.mem_cons_self (fresh claim) ?_ ?_
      · intro none
        refine le_trans (expired fun t a mem => none t a ((same t a).mpr mem)) (later p mem)
      · intro t a mem'
        exact le_trans (due t a ((same t a).mp mem')) (later p mem)
    · obtain ⟨t', u', r', eq⟩ := follows.claim_of (Bool.eq_false_iff.mpr claim)
      cases eq
      have same : ∀ t a, .released t a token r ∈ q :: mid ↔ .released t a token r ∈ mid :=
        mem_released_cons fun t a eq => other (by rw [eq]; rfl)
      exact .past p (List.mem_cons_of_mem _ mem) other (by simpa only [same] using expired)
        (by simpa only [same] using due)

/-- What stands behind a claim says where its row is now. -/
theorem History.since {t u : T} {k : K} {r : R} {older : List (Op R K T)} :
    ∀ mid : List (Op R K T), History (mid ++ .claimed t u k r :: older) →
      Since u k r mid (latest (mid ++ .claimed t u k r :: older) r) := by
  intro mid
  induction mid with
  | nil =>
    intro _
    rw [List.nil_append, show latest (.claimed t u k r :: older) r = _ from latest_cons_self _ _]
    exact .held fun _ _ => List.not_mem_nil
  | cons q mid ih =>
    intro H
    have s := ih H.1
    by_cases row : q.row = r
    · have last : latest (q :: mid ++ .claimed t u k r :: older) r = some q := by
        rw [← row]
        exact latest_cons_self _ _
      rw [last]
      have follows := H.2.2.1
      rw [row] at follows
      refine s.next row follows ?_ fun p hp => H.2.1 p (List.mem_append_left _ hp)
      intro claim same
      exact H.2.2.2 claim (.claimed t u k r) (List.mem_append_right _ List.mem_cons_self) same.symm
    · rw [List.cons_append, latest_cons_ne row]
      exact s.skip row

/-- **Exclusive leases.** Of two claims of one row the later is not before the end of the first
lease, unless the first was released in between; then it is not before the instant of that
release. -/
theorem History.exclusive {t₁ u₁ t₂ u₂ : T} {k₁ k₂ : K} {r : R} {front mid back : List (Op R K T)}
    (H : History (front ++ .claimed t₂ u₂ k₂ r :: (mid ++ .claimed t₁ u₁ k₁ r :: back))) :
    ((∀ t a, .released t a k₁ r ∉ mid) → u₁ ≤ t₂) ∧
      ∀ t a, .released t a k₁ r ∈ mid → a ≤ t₂ := by
  have here := H.of_append
  have s := History.since mid here.1
  have follows : Follows (.claimed t₂ u₂ k₂ r) _ := here.2.2.1
  rw [show (Op.claimed t₂ u₂ k₂ r).row = r from rfl] at follows
  generalize latest (mid ++ _) r = last at s follows
  cases s with
  | held kept =>
    cases follows with
    | expired lapsed => exact ⟨fun _ => lapsed, fun t a mem => absurd mem (kept t a)⟩
  | ended kept => cases follows
  | released mem only =>
    cases follows with
    | free due =>
      refine ⟨fun none => absurd mem (none _ _), ?_⟩
      intro t a mem'
      rw [only t a mem']
      exact due
  | past p mem other expired due =>
    have earlier : p.time ≤ t₂ := here.2.1 p (List.mem_append_left _ mem)
    exact ⟨fun none => le_trans (expired none) earlier,
      fun t a mem' => le_trans (due t a mem') earlier⟩

end Lease
