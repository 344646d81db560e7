import OtusApp.Laws.Gateway.Relay
import OtusApp.Nginx.Proxy
import OtusApp.Ratelimit.Middleware
import Mathlib.Data.List.TakeWhile

/-!
# Whom the limiter counts

Every component on the way to the app adds to the end of `X-Forwarded-For`, and the limiter takes
its beginning. So the identity is the first element of what the client sent, and the client's
address where it sent nothing (`windowKey_of_path`).
-/

namespace OtusApp.Ratelimit

open Go Program Hop Nginx

/-- The ways from the front proxy to the app. -/
inductive Way
  | direct
  | gateway
deriving DecidableEq, Repr

/-- What the app may receive on a way, when a client sends a request to the front proxy. -/
inductive Path (json : Handlers.Json) (addr : Address) (req : Request) : Way → Request → Prop
  | direct (host socket : String) : Path json addr req .direct (proxyPass addr host socket req)
  | gateway (host socket method : String) (x : Gateway.Draws) (y : Chaosproxy.Draws)
      {mid out : Request}
      (forwards :
        (Gateway.forward json method (proxyPass addr host socket req) x).Makes (.send mid))
      (proxies : (Chaosproxy.serveHTTP json mid y).Makes (.send out)) :
        Path json addr req .gateway out

/-! ## The first element -/

/-- The first element of a header. -/
def firstElement (value : String) : String := trimSpace ((split value ',').headD "")

theorem pieces_head (sep : Char) (l : List Char) :
    ∃ rest, pieces sep l = l.takeWhile (· ≠ sep) :: rest := by
  induction l with
  | nil => exact ⟨[], rfl⟩
  | cons c l ih =>
    obtain ⟨rest, found⟩ := ih
    by_cases same : c = sep
    · exact ⟨pieces sep l, by simp [pieces, same]⟩
    · exact ⟨rest, by simp [pieces, same, found]⟩

theorem firstElement_eq (value : String) :
    firstElement value = trimSpace (String.ofList (value.toList.takeWhile (· ≠ ','))) := by
  obtain ⟨rest, found⟩ := pieces_head ',' value.toList
  rw [firstElement, split, found]
  rfl

theorem takeWhile_separated (sep : Char) (l rest : List Char) :
    (l ++ sep :: rest).takeWhile (· ≠ sep) = l.takeWhile (· ≠ sep) := by
  induction l with
  | nil => simp
  | cons c l ih =>
    by_cases same : c = sep
    · simp [same]
    · simpa [same] using ih

theorem separated_ne_empty (value rest : String) : value ++ ", " ++ rest ≠ "" := by
  intro empty
  have chars := congrArg String.toList empty
  simp [String.toList_append] at chars

/-- What is added at the end does not matter. -/
theorem firstElement_append (value rest : String) :
    firstElement (value ++ ", " ++ rest) = firstElement value := by
  have begins : (value ++ ", " ++ rest).toList = value.toList ++ ',' :: (' ' :: rest.toList) := by
    simp [String.toList_append]
  rw [firstElement_eq, firstElement_eq, begins, takeWhile_separated]

theorem firstElement_address (addr : Address) : firstElement addr.text = addr.text := by
  have whole : addr.text.toList.takeWhile (· ≠ ',') = addr.text.toList := by
    refine List.takeWhile_eq_self_iff.mpr fun c mem => ?_
    simpa using (Address.char mem).1
  rw [firstElement_eq, whole, String.ofList_toList]
  exact trimSpace_eq_self fun c mem => (Address.char mem).2

/-! ## The way to the app -/

/-- Whom the limiter counts: the client's address, or what the client put in its place. -/
def identity (addr : Address) : List String → String
  | [] => addr.text
  | value :: _ => firstElement value

theorem firstElement_added (addr : Address) (values : List String) :
    firstElement (proxyAddXForwardedFor addr values) = identity addr values := by
  cases values with
  | nil => exact firstElement_address addr
  | cons value rest => exact firstElement_append value _

theorem proxyAddXForwardedFor_ne_empty (addr : Address) (values : List String) :
    proxyAddXForwardedFor addr values ≠ "" := by
  cases values with
  | nil => exact addr.nonempty
  | cons value rest => exact separated_ne_empty value _

theorem proxySetHeader_forwarded (addr : Address) (host : String) (header : Header) :
    (proxySetHeader addr host header).get "X-Forwarded-For" =
      proxyAddXForwardedFor addr (header "X-Forwarded-For") := by
  rw [proxySetHeader, Header.get_set_ne _ _ (by decide), Header.get_set_ne _ _ (by decide),
    Header.get_set_ne _ _ (by decide), Header.get_set]

/-- The gateway adds to the end, if it adds anything. -/
theorem forwardHeader_forwarded (method : String) (req : Request) (x : Gateway.Draws)
    (given : req.header.get "X-Forwarded-For" ≠ "") :
    (Gateway.forwardHeader method req x).get "X-Forwarded-For" = req.header.get "X-Forwarded-For" ∨
      ∃ host, (Gateway.forwardHeader method req x).get "X-Forwarded-For" =
        req.header.get "X-Forwarded-For" ++ ", " ++ host := by
  have copied := Gateway.copyHeaders_get
    (show Gateway.isHopHeader "X-Forwarded-For" = false by decide) req.header
  unfold Gateway.forwardHeader
  dsimp only
  split
  · left
    split
    · rw [Header.get_set_ne _ _ (by decide), copied]
    · exact copied
  · next host _ _ => exact .inr ⟨host, by rw [Header.get_set, if_pos given]⟩

/-- What reaches the app begins as what the front proxy sent. -/
theorem Path.forwarded {json : Handlers.Json} {addr : Address} {req out : Request} {way : Way}
    (path : Path json addr req way out) : out.header.get "X-Forwarded-For" ≠ "" ∧
      firstElement (out.header.get "X-Forwarded-For") =
        identity addr (req.header "X-Forwarded-For") := by
  have added := proxyAddXForwardedFor_ne_empty addr (req.header "X-Forwarded-For")
  cases path with
  | direct host socket =>
    change (proxySetHeader addr host req.header).get "X-Forwarded-For" ≠ "" ∧ _
    rw [proxySetHeader_forwarded]
    exact ⟨added, by rw [proxyPass, proxySetHeader_forwarded, firstElement_added]⟩
  | @gateway host socket method x y mid _ forwards proxies =>
    have sent : mid.header = Gateway.forwardHeader method (proxyPass addr host socket req) x :=
      forwards.meets (Gateway.forward_sends json method (proxyPass addr host socket req, x))
    have relayed : out.header = mid.header := proxies.meets (Gateway.serveHTTP_sends json (mid, y))
    rw [relayed, sent]
    have prior : (proxyPass addr host socket req).header.get "X-Forwarded-For" =
        proxyAddXForwardedFor addr (req.header "X-Forwarded-For") := proxySetHeader_forwarded ..
    rcases forwardHeader_forwarded method (proxyPass addr host socket req) x (prior ▸ added) with
      same | ⟨via, longer⟩
    · rw [same, prior]
      exact ⟨added, firstElement_added ..⟩
    · rw [longer, prior, firstElement_append]
      exact ⟨separated_ne_empty _ via, firstElement_added ..⟩

/-- The key of a request that reaches the app. -/
theorem windowKey_of_path {json : Handlers.Json} {addr : Address} {req out : Request} {way : Way}
    (path : Path json addr req way out) (window : Duration) (now : Instant) :
    windowKey window out now = "rl:" ++ identity addr (req.header "X-Forwarded-For") ++ ":" ++
      formatInt (windowNumber window now) 10 := by
  obtain ⟨given, first⟩ := path.forwarded
  rw [windowKey, clientIP, if_pos given, ← first]
  rfl

/-- The client names nobody else: it sends no such header, or its own address comes first. -/
def Honest (addr : Address) (req : Request) : Prop :=
  identity addr (req.header "X-Forwarded-For") = addr.text

/-- **The identity of a client.** Two requests from one address that name nobody else are counted
under one key, on whichever way they reach the app; and one that names somebody else is not counted
with the requests that name nobody. -/
theorem limiter_key_honest {json : Handlers.Json} {addr : Address} {req req' out out' : Request}
    {way way' : Way} (path : Path json addr req way out) (path' : Path json addr req' way' out')
    (window : Duration) (now : Instant) (honest : Honest addr req) :
    Honest addr req' ↔ windowKey window out now = windowKey window out' now := by
  rw [windowKey_of_path path, windowKey_of_path path', honest]
  constructor
  · intro honest'
    rw [honest']
  · intro same
    simp only [String.append_left_inj, String.append_right_inj] at same
    exact same.symm

/-- The client of the runs below. -/
def client : Address := ⟨"10.0.0.1", by decide, rfl⟩

/-- A request with the given values of `X-Forwarded-For`. -/
def withForwarded (values : List String) : Request :=
  ⟨"GET", "/messages", fun name => if name = "X-Forwarded-For" then values else [], [],
    "10.0.0.1:5000"⟩

/-- Every request reaches the app on either way, when no component on it fails. -/
theorem reaches (addr : Address) (req : Request) (way : Way) :
    ∃ out, Path Handlers.plainJson addr req way out := by
  cases way with
  | direct => exact ⟨_, .direct "otus" "10.0.0.7:5000"⟩
  | gateway =>
    exact ⟨_, .gateway "otus" "10.0.0.7:5000" "GET" ⟨none, 0, true, "10.0.0.8:5000", none⟩
      ⟨⟨0, false, 0, 0⟩, 0, true, true, "10.0.0.9:5000", none⟩ (.now _) (.now _)⟩

/-- A client that sends no header on one way, and its own address followed by others on the other
way. -/
theorem limiter_key_honest_listed : ∃ out out',
    Path Handlers.plainJson client (withForwarded []) .direct out ∧
    Path Handlers.plainJson client (withForwarded ["10.0.0.1, 8.8.8.8"]) .gateway out' ∧
    windowKey (60 * Duration.second) out 0 = windowKey (60 * Duration.second) out' 0 := by
  obtain ⟨out, path⟩ := reaches client (withForwarded []) .direct
  obtain ⟨out', path'⟩ := reaches client (withForwarded ["10.0.0.1, 8.8.8.8"]) .gateway
  refine ⟨out, out', path, path', ?_⟩
  exact (limiter_key_honest path path' (60 * Duration.second) 0 rfl).mp rfl

/-- Requests of one client on a way are counted under two keys. -/
def Chosen (way : Way) : Prop := ∃ out out',
  Path Handlers.plainJson client (withForwarded []) way out ∧
  Path Handlers.plainJson client (withForwarded ["8.8.8.8"]) way out' ∧
  windowKey (60 * Duration.second) out 0 = "rl:10.0.0.1:0" ∧
  windowKey (60 * Duration.second) out' 0 = "rl:8.8.8.8:0"

theorem chosen (way : Way) : Chosen way := by
  obtain ⟨out, path⟩ := reaches client (withForwarded []) way
  obtain ⟨out', path'⟩ := reaches client (withForwarded ["8.8.8.8"]) way
  refine ⟨out, out', path, path', ?_, ?_⟩
  · rw [windowKey_of_path path]
    decide
  · rw [windowKey_of_path path']
    decide

/-- On either way a client chooses whom it is counted as. -/
theorem limiter_key_chosen : Chosen .direct ∧ Chosen .gateway := ⟨chosen .direct, chosen .gateway⟩

end OtusApp.Ratelimit
