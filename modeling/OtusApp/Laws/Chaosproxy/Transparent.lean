import OtusApp.Chaosproxy.Http

/-!
# What passes the chaos proxy unchanged

Without faults a request passes the proxy unchanged, and so does the answer, exactly where the body
fits into what the proxy reads of it, the target is one that is sent on as it came, and the answer
is neither followed nor decompressed by the HTTP client and has come, to its end, before its
`Timeout` (`transparent`).

In one direction an answer has to be told from the one that the proxy gives when it has none: an app
that answered just that, too late, would seem to be passed on.
-/

namespace OtusApp.Chaosproxy.Http

open Go Program

variable {lib : NetHttp} {json : Handlers.Json} {base : String} {app : Nat → RawResponse}
  {others : Nat → Option RawResponse}

/-- The request has the contents of another one, apart from what `net/http` manages. -/
def Carries (req : Request) (o : ClientRequest) : Prop :=
  o.method = req.method ∧ o.url.uri = req.uri ∧ o.body = req.body ∧
    ∀ name, name ∉ managed → o.header name = req.header name

/-- The app receives the request, and the client its answer. -/
def Once (req : Request) (a : RawResponse) (served : Response × Net) : Prop :=
  (∃ o, served.2.received = [o] ∧ Carries req o) ∧ served.1 = a.toResponse

/-- The app receives the request twice, and the client one of the answers. -/
def Twice (req : Request) (a : RawResponse) (served : Response × Net) : Prop :=
  (∃ o, served.2.received = [o, o] ∧ Carries req o) ∧ served.1 = a.toResponse

/-- A request that is sent on as it came. -/
def Intact (req : Request) : Prop := Written req.uri.toList ∧ req.body.length ≤ bodyLimit

/-- An answer that the proxy's client returns: it is not followed, and comes before the
`Timeout`. -/
def Returned (a : RawResponse) : Prop := ¬a.Followed ∧ a.after < clientTimeout

/-- An answer to the request that comes back as it was sent: it is returned and not decompressed,
and its body is read to its end before the `Timeout`. -/
def Passes (req : Request) (a : RawResponse) : Prop :=
  Returned a ∧ ¬Compressed req.method req.header a ∧
    a.body.length ≤ a.read (clientTimeout - a.after)

/-! ## The client -/

/-- What was received stays. -/
theorem exec_received {α : Type} (x : Exchange α) (s : Net) :
    s.received <+: (x.exec (answer base app others) s).2.received := by
  refine Prog.exec_related (J := fun s t => s.received <+: t.received) (fun s => List.prefix_refl _)
    (fun _ _ _ => List.IsPrefix.trans) (fun s o => ?_) x s
  unfold answer
  split
  · exact List.prefix_append _ _
  · exact List.prefix_refl _

/-- How a round of `Client.Do` goes, with the deadline `left` ahead. -/
inductive Round (lib : NetHttp) (base : String) (app : Nat → RawResponse)
    (others : Nat → Option RawResponse)
    (again : Duration → ClientRequest → Exchange (Option Response)) (left : Duration)
    (o : ClientRequest) (s : Net) : Option Response × Net → Prop
  | lost (t : Net) (answered : answer base app others s (lib.onWire o) = (none, t)) :
      Round lib base app others again left o s (none, t)
  | late (a : RawResponse) (t : Net)
      (answered : answer base app others s (lib.onWire o) = (some a, t)) (late : ¬a.after < left) :
      Round lib base app others again left o s (none, t)
  | done (a : RawResponse) (t : Net)
      (answered : answer base app others s (lib.onWire o) = (some a, t)) (early : a.after < left)
      (final : ¬a.Followed) : Round lib base app others again left o s
        (some (lib.decompressed o a (a.read (left - a.after))), t)
  | failed (a : RawResponse) (t : Net)
      (answered : answer base app others s (lib.onWire o) = (some a, t)) (moved : a.Followed) :
      Round lib base app others again left o s (none, t)
  | follow (a : RawResponse) (t : Net) (o' : ClientRequest)
      (answered : answer base app others s (lib.onWire o) = (some a, t)) (early : a.after < left)
      (moved : a.Followed) : Round lib base app others again left o s
        ((again (left - a.after) o').exec (answer base app others) t)

theorem round_exec (again : Duration → ClientRequest → Exchange (Option Response)) (left : Duration)
    (o : ClientRequest) (s : Net) :
    Round lib base app others again left o s
      ((lib.round again left o).exec (answer base app others) s) := by
  cases replied : answer base app others s (lib.onWire o) with
  | mk got t =>
    have goes : (lib.round again left o).exec (answer base app others) s =
        (lib.proceed again o (got.bind (lib.inTime left o))).exec (answer base app others) t := by
      change (lib.proceed again o ((answer base app others s (lib.onWire o)).1.bind
        (lib.inTime left o))).exec (answer base app others)
          (answer base app others s (lib.onWire o)).2 = _
      rw [replied]
    rw [goes]
    cases got with
    | none => exact .lost t replied
    | some a =>
      rw [Option.bind_some, NetHttp.inTime]
      split
      · next early =>
        have moved : lib.next o (lib.decompressed o a (a.read (left - a.after))) ≠ .done →
            a.Followed := by
          intro other
          by_contra final
          exact other (next_done_iff.mpr (decompressed_followed.not.mpr final))
        rw [NetHttp.proceed]
        split
        · next final =>
          exact .done a t replied early (decompressed_followed.not.mp (next_done_iff.mp final))
        · next fails =>
          rw [fails] at moved
          exact .failed a t replied (moved fun same => Next.noConfusion same)
        · next o' follows =>
          rw [follows] at moved
          exact .follow a t o' replied early (moved fun same => Next.noConfusion same)
      · next late => exact .late a t replied late

/-- What holds of a `Client.Do` that stops, and of a round if it holds of the rounds after it, holds
of `Client.Do`. -/
theorem doLoop_rule {P : Net → Option Response × Net → Prop} (stop : ∀ s, P s (none, s))
    (round : ∀ again left o s result,
      (∀ left o s, P s (Prog.exec (answer base app others) (again left o) s)) →
      Round lib base app others again left o s result → P s result)
    (more : Nat) (left : Duration) (o : ClientRequest) (s : Net) :
    P s ((lib.doLoop more left o).exec (answer base app others) s) := by
  induction more generalizing left o s with
  | zero =>
    exact round (fun _ _ => return none) left o s _ (fun _ _ => stop) (round_exec _ left o s)
  | succ more ih => exact round _ left o s _ ih (round_exec _ left o s)

/-- `Client.Do` returns no answer that it follows. -/
theorem do_final {o : ClientRequest} {s t : Net} {r : Response} {timeout : Duration}
    (returned : (lib.do_ timeout o).exec (answer base app others) s = (some r, t)) :
    ¬r.Followed := by
  refine doLoop_rule (P := fun _ result => ∀ r, result.1 = some r → ¬r.Followed) ?_ ?_
    9 timeout o s r
    (congrArg Prod.fst returned)
  · intro s r same
    cases same
  · intro again left o s result ih round r same
    cases round with
    | done a t answered early final =>
      cases same
      exact decompressed_followed.not.mpr final
    | follow a t o' => exact ih _ o' t r same
    | lost | late | failed => cases same

/-- Where no other server answers, an answer of `Client.Do` is one of the app. -/
theorem doLoop_app {more : Nat} {left : Duration} {o : ClientRequest} {s : Net} {r : Response}
    (returned : ((lib.doLoop more left o).exec (answer base app fun _ => none) s).1 = some r) :
    s.received.length <
      ((lib.doLoop more left o).exec (answer base app fun _ => none) s).2.received.length := by
  refine doLoop_rule (P := fun s result => ∀ r, result.1 = some r →
    s.received.length < result.2.received.length) ?_ ?_ more left o s r returned
  · intro s r same
    cases same
  · intro again left o s result ih round r same
    cases round with
    | done a t answered =>
      unfold answer at answered
      split at answered
      · cases answered
        simp
      · cases answered
    | follow a t o' answered =>
      unfold answer at answered
      split at answered
      · cases answered
        have longer := ih _ o' _ r same
        simp only [List.length_append, List.length_singleton] at longer
        omega
      · cases answered
    | lost | late | failed => cases same

/-! ## An attempt -/

theorem attempt_fails {o : ClientRequest} {s t : Net} {next : Response → Exchange Response}
    (failed : (lib.do_ clientTimeout o).exec (answer base app others) s = (none, t)) :
    (attempt lib json (some o) next).exec (answer base app others) s = (unavailable json, t) := by
  rw [attempt, Prog.exec_bind, failed]
  rfl

theorem attempt_returns {o : ClientRequest} {s t : Net} {r : Response}
    {next : Response → Exchange Response}
    (returned : (lib.do_ clientTimeout o).exec (answer base app others) s = (some r, t)) :
    (attempt lib json (some o) next).exec (answer base app others) s =
      (next r).exec (answer base app others) t := by
  rw [attempt, Prog.exec_bind, returned]

/-! ## A request for the app -/

section

variable {o : ClientRequest} (host : o.url.host = base)
include host

theorem answer_onWire (s : Net) : answer base app others s (lib.onWire o) =
    (some (app s.received.length), ⟨s.received ++ [lib.onWire o], s.elsewhere⟩) := if_pos host

/-- The app answers, and its answer is returned, or no answer is, or it is followed. -/
theorem do_cases (lib : NetHttp) (others : Nat → Option RawResponse) (s : Net) :
    (Returned (app s.received.length) ∧
      (lib.do_ clientTimeout o).exec (answer base app others) s =
        (some (lib.decompressed o (app s.received.length)
          ((app s.received.length).read (clientTimeout - (app s.received.length).after))),
          ⟨s.received ++ [lib.onWire o], s.elsewhere⟩)) ∨
    (¬Returned (app s.received.length) ∧ (lib.do_ clientTimeout o).exec (answer base app others) s =
      (none, ⟨s.received ++ [lib.onWire o], s.elsewhere⟩)) ∨
    ((app s.received.length).after < clientTimeout ∧ (app s.received.length).Followed ∧
      ∃ left o', (lib.do_ clientTimeout o).exec (answer base app others) s =
        (lib.doLoop 8 left o').exec (answer base app others)
          ⟨s.received ++ [lib.onWire o], s.elsewhere⟩) := by
  have round : Round lib base app others (lib.doLoop 8) clientTimeout o s
      ((lib.do_ clientTimeout o).exec (answer base app others) s) := round_exec _ _ o s
  generalize (lib.do_ clientTimeout o).exec (answer base app others) s = result at round ⊢
  cases round with
  | lost t answered =>
    rw [answer_onWire host] at answered
    cases answered
  | late a t answered late =>
    rw [answer_onWire host] at answered
    cases answered
    exact .inr (.inl ⟨fun returned => late returned.2, rfl⟩)
  | done a t answered early final =>
    rw [answer_onWire host] at answered
    cases answered
    exact .inl ⟨⟨final, early⟩, rfl⟩
  | failed a t answered moved =>
    rw [answer_onWire host] at answered
    cases answered
    exact .inr (.inl ⟨fun returned => returned.1 moved, rfl⟩)
  | follow a t o' answered early moved =>
    rw [answer_onWire host] at answered
    cases answered
    exact .inr (.inr ⟨early, moved, _, o', rfl⟩)

theorem do_returns (lib : NetHttp) (others : Nat → Option RawResponse) {s : Net}
    (returned : Returned (app s.received.length)) :
    (lib.do_ clientTimeout o).exec (answer base app others) s =
      (some (lib.decompressed o (app s.received.length)
        ((app s.received.length).read (clientTimeout - (app s.received.length).after))),
        ⟨s.received ++ [lib.onWire o], s.elsewhere⟩) := by
  rcases do_cases host lib others s with ⟨_, same⟩ | ⟨other, _⟩ | ⟨_, moved, _⟩
  · exact same
  · exact absurd returned other
  · exact absurd moved returned.1

theorem do_receives (lib : NetHttp) (app : Nat → RawResponse) (others : Nat → Option RawResponse)
    (s : Net) : s.received ++ [lib.onWire o] <+:
      ((lib.do_ clientTimeout o).exec (answer base app others) s).2.received := by
  rcases do_cases host lib others s with ⟨_, returned⟩ | ⟨_, failed⟩ | ⟨_, _, left, o', follows⟩
  · exact (congrArg (fun result => result.2.received) returned) ▸ List.prefix_refl _
  · exact (congrArg (fun result => result.2.received) failed) ▸ List.prefix_refl _
  · rw [follows]
    exact exec_received _ ⟨s.received ++ [lib.onWire o], s.elsewhere⟩

/-- Where no other server answers, an answer that is not returned leads to the app again, or to
none. -/
theorem do_again {s t : Net} {r : Response} (other : ¬Returned (app s.received.length))
    (answered : (lib.do_ clientTimeout o).exec (answer base app fun _ => none) s = (some r, t)) :
    s.received.length + 1 < t.received.length := by
  rcases do_cases host lib (fun _ => none) s
    with ⟨returned, _⟩ | ⟨_, failed⟩ | ⟨_, _, left, o', follows⟩
  · exact absurd returned other
  · rw [failed] at answered
    cases answered
  · rw [follows] at answered
    have longer := doLoop_app (congrArg Prod.fst answered)
    rw [answered, List.length_append] at longer
    exact longer

theorem attempt_receives (lib : NetHttp) (json : Handlers.Json) (app : Nat → RawResponse)
    (others : Nat → Option RawResponse) (s : Net) (next : Response → Exchange Response) :
    s.received ++ [lib.onWire o] <+:
      ((attempt lib json (some o) next).exec (answer base app others) s).2.received := by
  have receives := do_receives host lib app others s
  cases done : (lib.do_ clientTimeout o).exec (answer base app others) s with
  | mk got t =>
    rw [done] at receives
    cases got with
    | none =>
      rw [attempt_fails done]
      exact receives
    | some r =>
      rw [attempt_returns done]
      exact receives.trans (exec_received _ t)

/-- **The last attempt.** The client receives an answer that passes. -/
theorem last_attempt {s : Net} {req : Request} (method : o.method = req.method)
    (header : o.header = req.header) (passes : Passes req (app s.received.length)) :
    ((loop lib json (some o) 0).exec (answer base app others) s).1 =
      (app s.received.length).toResponse := by
  obtain ⟨returned, plain, whole⟩ := passes
  rw [loop, attempt_returns (do_returns host lib others returned)]
  refine decompressed_eq.mpr ⟨?_, whole⟩
  rwa [method, header]

/-- What the client receives and the proxy does not write itself has passed. -/
theorem passes_of_last {s : Net} {req : Request} (method : o.method = req.method)
    (header : o.header = req.header) (told : (app s.received.length).toResponse ≠ unavailable json)
    (same : ((loop lib json (some o) 0).exec (answer base app others) s).1 =
      (app s.received.length).toResponse) : Passes req (app s.received.length) := by
  cases done : (lib.do_ clientTimeout o).exec (answer base app others) s with
  | mk got t =>
    cases got with
    | none =>
      rw [loop, attempt_fails done] at same
      exact absurd same.symm told
    | some r =>
      have given : r = (app s.received.length).toResponse := by
        rw [loop, attempt_returns done] at same
        exact same
      rcases do_cases host lib others s with ⟨returned, goes⟩ | ⟨_, failed⟩ | ⟨_, moved, _⟩
      · obtain ⟨answers, _⟩ := Prod.mk.inj (done.symm.trans goes)
        have plain := decompressed_eq.mp ((Option.some.inj answers).symm.trans given)
        rw [method, header] at plain
        exact ⟨returned, plain⟩
      · rw [failed] at done
        cases done
      · exact absurd (given ▸ moved) (do_final done)

/-- An attempt whose answer is returned leaves the app with one more request. -/
theorem loop_last {s : Net} (returned : Returned (app s.received.length)) :
    ((loop lib json (some o) 0).exec (answer base app others) s).2.received =
      s.received ++ [lib.onWire o] := by
  rw [loop, attempt_returns (do_returns host lib others returned)]
  rfl

theorem loop_again {more : Nat} {s : Net} (returned : Returned (app s.received.length)) :
    (loop lib json (some o) (more + 1)).exec (answer base app others) s =
      (loop lib json (some o) more).exec (answer base app others)
        ⟨s.received ++ [lib.onWire o], s.elsewhere⟩ := by
  rw [loop, attempt_returns (do_returns host lib others returned)]

end

/-! ## The request that is built -/

theorem newRequest_parts {req : Request} {body : Bytes} {o : ClientRequest}
    (h : newRequest lib base req body = some o) :
    o.method = req.method ∧ o.header = req.header ∧ o.body = body := by
  obtain ⟨url, _, rfl⟩ := Option.map_eq_some_iff.mp h
  exact ⟨rfl, rfl, rfl⟩

/-- The URL of a request in origin form. -/
theorem parse_requestTarget (lib : NetHttp) (base method : String) {uri : String}
    (rooted : uri.toList.head? = some '/') :
    ((lib.requestTarget method uri).bind (lib.parse base)).map
      (fun url => (url.host, url.uri.toList)) =
      ((requestURI uri.toList).bind fun u =>
        requestURI (withoutFragment u)).map fun u => (base, u) := by
  rw [NetHttp.requestTarget, if_pos rooted]
  cases first : requestURI uri.toList with
  | none => rfl
  | some u =>
    have again : (String.ofList u).toList.head? = some '/' := by
      rw [String.toList_ofList]
      exact requestURI_rooted first rooted
    rw [Option.map_some, Option.bind_some, Option.bind_some, NetHttp.parse, dif_pos again]
    split
    · next none =>
      rw [String.toList_ofList] at none
      rw [none]
      rfl
    · next v is =>
      rw [String.toList_ofList] at is
      rw [is, Option.map_some, Option.map_some]
      exact congrArg (fun l => some (base, l)) String.toList_ofList

/-- A request in origin form goes to the app, under the target it came with if that is sent on as it
came. -/
theorem newRequest_app {req : Request} {body : Bytes} {o : ClientRequest}
    (rooted : req.uri.toList.head? = some '/') (h : newRequest lib base req body = some o) :
    o.url.host = base ∧ (o.url.uri = req.uri ↔ Written req.uri.toList) := by
  obtain ⟨url, parsed, rfl⟩ := Option.map_eq_some_iff.mp h
  have built := parse_requestTarget lib base req.method rooted
  rw [parsed, Option.map_some] at built
  obtain ⟨u, twice, same⟩ := Option.map_eq_some_iff.mp built.symm
  obtain ⟨host, uri⟩ := Prod.mk.inj same
  refine ⟨host.symm, ?_⟩
  rw [← requestURI_twice rooted, twice, Option.some_inj, uri]
  exact String.toList_inj.symm

theorem newRequest_of_written (lib : NetHttp) (base : String) {req : Request} (body : Bytes)
    (written : Written req.uri.toList) :
    ∃ o, newRequest lib base req body = some o := by
  have built := parse_requestTarget lib base req.method written.1
  rw [(requestURI_twice written.1).mpr written, Option.map_some] at built
  obtain ⟨url, parsed, _⟩ := Option.map_eq_some_iff.mp built
  exact ⟨_, Option.map_eq_some_iff.mpr ⟨url, parsed, rfl⟩⟩

/-- **The request that is sent** has the contents of the one that came in exactly where that is sent
on as it came. -/
theorem carries_iff {req : Request} {o : ClientRequest} (rooted : req.uri.toList.head? = some '/')
    (h : newRequest lib base req (req.body.take bodyLimit) = some o) :
    Carries req (lib.onWire o) ↔ Intact req := by
  obtain ⟨method, header, body⟩ := newRequest_parts h
  have uri := (newRequest_app rooted h).2
  constructor
  · rintro ⟨_, sameUri, sameBody, _⟩
    have whole := congrArg List.length (body.symm.trans sameBody)
    rw [List.length_take] at whole
    exact ⟨uri.mp sameUri, by omega⟩
  · rintro ⟨written, fits⟩
    refine ⟨method, uri.mpr written, body.trans (List.take_of_length_le fits), fun name other => ?_⟩
    rw [onWire_header other, header]

/-! ## Whole requests -/

/-- What the app receives with the contents of a request is in origin form. -/
theorem Carries.rooted {req : Request} {o : ClientRequest} (h : Carries req o) :
    req.uri.toList.head? = some '/' :=
  h.2.1 ▸ o.url.rooted

/-- Where the app receives something, a request was built. -/
theorem built_of_received {req : Request} {left : Nat} {o : ClientRequest}
    {rest : List ClientRequest}
    (received : ((loop lib json (newRequest lib base req (req.body.take bodyLimit)) left).exec
      (answer base app others) ⟨[], 0⟩).2.received = o :: rest)
    (carries : Carries req o) :
    ∃ out, newRequest lib base req (req.body.take bodyLimit) = some out ∧ out.url.host = base := by
  cases built : newRequest lib base req (req.body.take bodyLimit) with
  | none =>
    rw [built] at received
    cases left <;> cases received
  | some out => exact ⟨out, rfl, (newRequest_app carries.rooted built).1⟩

section

variable (lib : NetHttp) (json : Handlers.Json) (base : String) (req : Request)
  (app : Nat → RawResponse)

/-- A request as the proxy sends it, some more times after the first. -/
def sent (others : Nat → Option RawResponse) (more : Nat) : Response × Net :=
  (loop lib json (newRequest lib base req (req.body.take bodyLimit)) more).exec
    (answer base app others) ⟨[], 0⟩

/-- Without faults. -/
theorem once_of (others : Nat → Option RawResponse) (intact : Intact req)
    (passes : Passes req (app 0)) :
    Once req (app 0) (sent lib json base req app others 0) := by
  obtain ⟨out, built⟩ := newRequest_of_written lib base (req.body.take bodyLimit) intact.1
  have host := (newRequest_app intact.1.1 built).1
  obtain ⟨method, header, _⟩ := newRequest_parts built
  rw [sent, built]
  exact ⟨⟨lib.onWire out, loop_last host passes.1, (carries_iff intact.1.1 built).mpr intact⟩,
    last_attempt host method header passes⟩

/-- With repetition only. -/
theorem twice_of (others : Nat → Option RawResponse) (intact : Intact req)
    (first : Returned (app 0)) (passes : Passes req (app 1)) :
    Twice req (app 1) (sent lib json base req app others 1) := by
  obtain ⟨out, built⟩ := newRequest_of_written lib base (req.body.take bodyLimit) intact.1
  have host := (newRequest_app intact.1.1 built).1
  obtain ⟨method, header, _⟩ := newRequest_parts built
  rw [sent, built, loop_again host first]
  exact ⟨⟨lib.onWire out, loop_last host passes.1, (carries_iff intact.1.1 built).mpr intact⟩,
    last_attempt host method header passes⟩

variable {lib json base req app}

theorem of_once {others : Nat → Option RawResponse} (told : (app 0).toResponse ≠ unavailable json)
    (once : Once req (app 0) (sent lib json base req app others 0)) :
    Intact req ∧ Passes req (app 0) := by
  obtain ⟨⟨o, received, carries⟩, same⟩ := once
  obtain ⟨out, built, host⟩ := built_of_received received carries
  rw [sent, built] at received same
  obtain ⟨method, header, _⟩ := newRequest_parts built
  have passes := passes_of_last host (s := ⟨[], 0⟩) method header told same
  rw [loop_last host passes.1] at received
  cases received
  exact ⟨(carries_iff carries.rooted built).mp carries, passes⟩

/-- Where a request is to reach the app twice and no other server answers, the first answer is
returned. -/
theorem first_returned {o out : ClientRequest} (host : out.url.host = base)
    (told : (app 1).toResponse ≠ unavailable json)
    (received : ((loop lib json (some out) 1).exec (answer base app fun _ => none)
      ⟨[], 0⟩).2.received = [o, o])
    (same : ((loop lib json (some out) 1).exec (answer base app fun _ => none) ⟨[], 0⟩).1 =
      (app 1).toResponse) : Returned (app 0) := by
  by_contra other
  cases done : (lib.do_ clientTimeout out).exec (answer base app fun _ => none) ⟨[], 0⟩ with
  | mk got t =>
    cases got with
    | none =>
      rw [loop, attempt_fails done] at same
      exact told same.symm
    | some r =>
      -- The first answer has led to the app again, and the second attempt is yet to come.
      rw [loop, attempt_returns done] at received
      have twice := do_again host other done
      have third := (attempt_receives host lib json app (fun _ => none) t
        fun resp => return resp).length_le
      rw [show ((attempt lib json (some out) fun resp => return resp).exec
        (answer base app fun _ => none) t).2.received = [o, o] from received,
        List.length_append] at third
      simp only [List.length_cons, List.length_nil] at twice third
      omega

theorem of_twice (told : (app 1).toResponse ≠ unavailable json)
    (twice : ∀ others, Twice req (app 1) (sent lib json base req app others 1)) :
    Intact req ∧ Returned (app 0) ∧ Passes req (app 1) := by
  obtain ⟨⟨o, received, carries⟩, same⟩ := twice fun _ => none
  obtain ⟨out, built, host⟩ := built_of_received received carries
  rw [sent, built] at received same
  obtain ⟨method, header, _⟩ := newRequest_parts built
  have first := first_returned host told received same
  rw [loop_again host first] at received same
  have passes := passes_of_last host (s := ⟨[lib.onWire out], 0⟩) method header told same
  have both : [lib.onWire out, lib.onWire out] = [o, o] :=
    (loop_last host passes.1).symm.trans received
  cases both
  exact ⟨(carries_iff carries.rooted built).mp carries, first, passes⟩

end

/-- A request that is not dropped. -/
theorem serve_sent {faults : Faults} {float64 : Rat} {req : Request} {more : Nat}
    (undropped : faults.dropRate = 0)
    (attempts : (if faults.repeat_ ∧ req.method ≠ "GET" then 2 else 1) = more + 1) :
    serve lib json base app others faults float64 req = sent lib json base req app others more := by
  have kept : ¬(faults.dropRate > 0 ∧ float64 < faults.dropRate) := by
    rw [undropped]
    exact fun dropped => absurd dropped.1 (by decide)
  simp only [serve, serveHTTP, sent, if_neg kept, attempts, Nat.add_sub_cancel]

/-- **The proxy without faults** hands on the request and the answer unchanged where the request is
sent on as it came and the answer comes back as it was sent, and only there. The proxy that only
repeats sends a request on twice with the same contents and hands on the second answer, whatever
other servers do, where in addition the first answer is returned, and only there. The converses are
about an answer that is not the one the proxy gives when it has none. -/
theorem transparent (lib : NetHttp) (json : Handlers.Json) (base : String) (float64 : Rat)
    (req : Request) (app : Nat → RawResponse) :
    ((Intact req ∧ Passes req (app 0) →
        ∀ others, Once req (app 0) (serve lib json base app others .off float64 req)) ∧
      ((app 0).toResponse ≠ unavailable json →
        ∀ others, Once req (app 0) (serve lib json base app others .off float64 req) →
          Intact req ∧ Passes req (app 0))) ∧
    (req.method ≠ "GET" →
      (Intact req ∧ Returned (app 0) ∧ Passes req (app 1) →
        ∀ others, Twice req (app 1)
          (serve lib json base app others { Faults.off with repeat_ := true } float64 req)) ∧
      ((app 1).toResponse ≠ unavailable json →
        (∀ others, Twice req (app 1)
          (serve lib json base app others { Faults.off with repeat_ := true } float64 req)) →
          Intact req ∧ Returned (app 0) ∧ Passes req (app 1))) := by
  constructor
  · have once : ∀ others, serve lib json base app others .off float64 req =
        sent lib json base req app others 0 := fun others => serve_sent rfl rfl
    simp only [once]
    exact ⟨fun passes others => once_of lib json base req app others passes.1 passes.2,
      fun told others => of_once told⟩
  · intro other
    have twice : ∀ others,
        serve lib json base app others { Faults.off with repeat_ := true } float64 req =
          sent lib json base req app others 1 := fun others => serve_sent rfl (if_pos ⟨rfl, other⟩)
    simp only [twice]
    exact ⟨fun passes others =>
      twice_of lib json base req app others passes.1 passes.2.1 passes.2.2,
      of_twice⟩

/-- A library that knows of targets in origin form only. -/
def plainHttp : NetHttp where
  requestURI _ target := target
  resolve _ _ := none
  locate _ _ := none
  copyHeaders header _ _ := header
  writes _ := Header.empty
  gunzip := id

/-- A small message. -/
def greeting : Request :=
  ⟨"POST", "/messages", Header.empty.set "Idempotency-Key" "k", [104, 105], "10.0.0.1:5000"⟩

/-- What the app answers it, after twenty milliseconds. -/
def greeted : RawResponse :=
  ⟨⟨201, Header.empty.set "Content-Type" "application/json", [49]⟩, false,
    20 * Duration.millisecond, fun _ => 1⟩

theorem transparent_greeting :
    Once greeting greeted (serve plainHttp Handlers.plainJson "http://app:8080" (fun _ => greeted)
      (fun _ => none) .off (1 / 2) greeting) ∧
    ∀ others, Twice greeting greeted (serve plainHttp Handlers.plainJson "http://app:8080"
      (fun _ => greeted) others { Faults.off with repeat_ := true } (1 / 2) greeting) := by
  have written : Written greeting.uri.toList := by decide +kernel
  have intact : Intact greeting := ⟨written, by decide⟩
  have returned : Returned greeted := ⟨by decide, by decide⟩
  have passes : Passes greeting greeted := ⟨returned, by decide, by decide⟩
  obtain ⟨⟨once, _⟩, twice⟩ :=
    transparent plainHttp Handlers.plainJson "http://app:8080" (1 / 2) greeting fun _ => greeted
  exact ⟨once ⟨intact, passes⟩ _, (twice (by decide)).1 ⟨intact, returned, passes⟩⟩

/-- A file of one byte more than the proxy reads. -/
def largeFile : Request :=
  ⟨"POST", "/files?name=a", Header.empty, List.replicate (2 ^ 20 + 1) 97, "10.0.0.1:5000"⟩

/-- **A large body** reaches the app without its end, and the client is told that all went well. -/
theorem truncated : largeFile.body.length = 2 ^ 20 + 1 ∧ ∃ o,
    (serve plainHttp Handlers.plainJson "http://app:8080" (fun _ => greeted) (fun _ => none) .off
      (1 / 2) largeFile).2.received = [o] ∧ o.body.length = 2 ^ 20 ∧
    (serve plainHttp Handlers.plainJson "http://app:8080" (fun _ => greeted) (fun _ => none) .off
      (1 / 2) largeFile).1 = greeted.toResponse := by
  have written : Written largeFile.uri.toList := by decide +kernel
  have returned : Returned greeted := ⟨by decide, by decide⟩
  have plain : ¬Compressed largeFile.method largeFile.header greeted :=
    fun compressed => absurd compressed.2.2 (by decide)
  obtain ⟨out, built⟩ :=
    newRequest_of_written plainHttp "http://app:8080" (largeFile.body.take bodyLimit) written
  have host := (newRequest_app written.1 built).1
  obtain ⟨method, header, body⟩ := newRequest_parts built
  rw [serve_sent rfl rfl, sent, built]
  refine ⟨List.length_replicate, plainHttp.onWire out, loop_last host returned, ?_, ?_⟩
  · have whole : (plainHttp.onWire out).body = largeFile.body.take bodyLimit := body
    rw [whole, List.length_take, largeFile, List.length_replicate]
    rfl
  · exact last_attempt host (s := ⟨[], 0⟩) method header ⟨returned, plain, by decide⟩

/-- **A late answer** does not pass: where it comes after the `Timeout` the client is told that
there is none, though the app has received the request. -/
theorem late_unavailable (lib : NetHttp) (json : Handlers.Json) (base : String)
    (others : Nat → Option RawResponse) (float64 : Rat) {req : Request} {app : Nat → RawResponse}
    (intact : Intact req) (late : ¬(app 0).after < clientTimeout) :
    ∃ o, Carries req o ∧
      serve lib json base app others .off float64 req = (unavailable json, ⟨[o], 0⟩) := by
  obtain ⟨out, built⟩ := newRequest_of_written lib base (req.body.take bodyLimit) intact.1
  have host := (newRequest_app intact.1.1 built).1
  rw [serve_sent rfl rfl, sent, built, loop]
  refine ⟨lib.onWire out, (carries_iff intact.1.1 built).mpr intact, ?_⟩
  rcases do_cases host lib others ⟨[], 0⟩ with ⟨returned, _⟩ | ⟨_, failed⟩ | ⟨early, _⟩
  · exact absurd returned.2 late
  · rw [attempt_fails failed]
    rfl
  · exact absurd early late

/-! ## The proxy of the network -/

/-- How a client of a site is answered: with a ticket, and with the answer. -/
def siteAnswer (w : Option Response) : (e : Hop.Effect Request) → Option (e.Answer Response)
  | .send _ => some (0 : Nat)
  | .receive _ => some w

/-- Each answer twice: for the sending and for the receiving. -/
def siteWorlds (ws : List (Option RawResponse)) : List (Option Response) :=
  ws.flatMap fun w => [w.map (·.toResponse), w.map (·.toResponse)]

theorem do_answered {o : ClientRequest} {req : Request} (method : o.method = req.method)
    (header : o.header = req.header) {α : Type} {w : Option RawResponse}
    {ws : List (Option RawResponse)} (passes : ∀ a ∈ w, Passes req a)
    (k : Option Response → Exchange α) :
    (lib.do_ clientTimeout o >>= k).answered (fun w _ => some w) (w :: ws) =
      (k (w.map (·.toResponse))).answered (fun w _ => some w) ws := by
  cases w with
  | none => rfl
  | some a =>
    obtain ⟨⟨final, early⟩, plain, whole⟩ := passes a rfl
    rw [← method, ← header] at plain
    have same : lib.decompressed o a (a.read (clientTimeout - a.after)) = a.toResponse :=
      decompressed_eq.mpr ⟨plain, whole⟩
    have done : lib.next o a.toResponse = .done := next_done_iff.mpr final
    change (lib.proceed (lib.doLoop 8) o (lib.inTime clientTimeout o a) >>= k).answered
      (fun w _ => some w) ws = _
    rw [NetHttp.inTime, if_pos early, same, NetHttp.proceed, done]
    rfl

theorem loop_agrees {o : ClientRequest} {req out : Request} {x : Draws}
    (method : o.method = req.method) (header : o.header = req.header) (built : x.built = true)
    (uncut : x.cut = none) (more : Nat) {ws : List (Option RawResponse)}
    (passes : ∀ w ∈ ws, ∀ a ∈ w, Passes req a) :
    (loop lib json (some o) more).answered (fun w _ => some w) ws =
      (Chaosproxy.loop json out x more).answered siteAnswer (siteWorlds ws) := by
  induction more generalizing ws with
  | zero =>
    rw [loop, attempt, Chaosproxy.loop, Chaosproxy.attempt, if_pos built, uncut]
    cases ws with
    | nil => rfl
    | cons w ws =>
      rw [do_answered method header (passes w List.mem_cons_self)]
      cases w <;> rfl
  | succ more ih =>
    rw [loop, attempt, Chaosproxy.loop, Chaosproxy.attempt, if_pos built]
    cases ws with
    | nil => rfl
    | cons w ws =>
      rw [do_answered method header (passes w List.mem_cons_self)]
      cases w with
      | none => rfl
      | some a => exact ih fun w mem => passes w (List.mem_cons_of_mem _ mem)

/-- **The proxy of the network** answers what this one does, where the answers it is given come back
as they were sent. -/
theorem serveHTTP_agrees {req : Request} {x : Draws} (read : x.read = true)
    (built : x.built = (newRequest lib base req (req.body.take bodyLimit)).isSome)
    (uncut : x.cut = none) {ws : List (Option RawResponse)}
    (passes : ∀ w ∈ ws, ∀ a ∈ w, Passes req a) :
    (serveHTTP lib json base x.faults x.float64 req).answered (fun w _ => some w) ws =
      (Chaosproxy.serveHTTP json req x).answered siteAnswer (siteWorlds ws) := by
  unfold serveHTTP Chaosproxy.serveHTTP
  rw [if_pos read]
  split
  · rfl
  · cases out : newRequest lib base req (req.body.take bodyLimit) with
    | none =>
      rw [out] at built
      have failed : ¬x.built = true := by rw [built]; exact Bool.false_ne_true
      split
      · rw [loop, attempt, Chaosproxy.loop, Chaosproxy.attempt, if_neg failed]
        rfl
      · rw [loop, attempt, Chaosproxy.loop, Chaosproxy.attempt, if_neg failed]
        rfl
    | some o =>
      rw [out] at built
      obtain ⟨method, header, _⟩ := newRequest_parts out
      exact loop_agrees method header built uncut _ passes

end OtusApp.Chaosproxy.Http
