import OtusApp.Go.Duration
import OtusApp.Go.Url
import OtusApp.Lib.Program

/-!
# The HTTP client

`http.Client.Do` with its redirects and its `Timeout`, over `Transport.RoundTrip`, which asks for a
compressed answer on its own and decompresses it. A request that is sent is a call of the program,
and its answer comes or does not. The `Timeout` is one for all the requests of a `Do` and for the
body of the answer that is returned: what has not been read of it by then is lost. The body of a
request is one that can be read again. Cookies and trailers are left out.
-/

namespace OtusApp.Go

open Program

/-- A URL with an authority: the server at its host, and its request URI. -/
structure Url where
  host : String
  uri : String
  rooted : uri.toList.head? = some '/'

/-- A request of a client. -/
structure ClientRequest where
  method : String
  url : Url
  header : Header
  body : Bytes

/-- An answer as it comes in; the length of a `chunked` one is not known before its end. It comes
some time `after` the client has begun, or has had the answer before it, and from then on its body
is read: `read` is how many bytes in a given time. -/
structure RawResponse extends Response where
  chunked : Bool
  after : Duration
  read : Duration → Nat

/-- What `net/url` and `net/http` do besides: the request URI of a target that is not in origin
form; the URL that is the base URL with such a text behind it; a `Location` in an answer to a
request for a URL; the header of a request that follows a redirect from one URL to another; the
header fields that the client writes itself; and what can be read of compressed bytes. -/
structure NetHttp where
  requestURI : String → String → String
  resolve : String → String → Option Url
  locate : Url → String → Option Url
  copyHeaders : Header → Url → Url → Header
  writes : ClientRequest → Header
  gunzip : Bytes → Bytes

/-- `reqWriteExcludeHeader`: what is written of the request itself and not of its header. -/
def reqWriteExcludeHeader : List String :=
  ["Host", "User-Agent", "Content-Length", "Transfer-Encoding", "Trailer"]

/-- The header fields that `net/http` manages in a request. -/
def managed : List String := "Accept-Encoding" :: reqWriteExcludeHeader

/-- `ascii.EqualFold`. -/
def asciiEqualFold (s t : String) : Bool := s.toList.map Char.toLower == t.toList.map Char.toLower

/-- The transport asks for a compressed answer on its own. -/
def asksGzip (method : String) (header : Header) : Bool :=
  header.get "Accept-Encoding" = "" && header.get "Range" = "" && method ≠ "HEAD"

/-- The transport asked for an answer to be compressed, and it is. Such a request is not a
`HEAD`. -/
def Compressed (method : String) (header : Header) (a : RawResponse) : Prop :=
  asksGzip method header ∧ (a.chunked ∨ a.body ≠ []) ∧
  asciiEqualFold (a.header.get "Content-Encoding") "gzip"

instance (method : String) (header : Header) (a : RawResponse) :
    Decidable (Compressed method header a) :=
  inferInstanceAs (Decidable (_ ∧ _))

/-- `redirectBehavior`: the method of the next request, and whether it has the body. -/
def redirectBehavior (method : String) (status : Nat) : Option (String × Bool) :=
  if status ∈ [301, 302, 303] then
    some (if method ≠ "GET" ∧ method ≠ "HEAD" then "GET" else method, false)
  else if status ∈ [307, 308] then some (method, true)
  else none

/-- What an answer leads to. -/
inductive Next
  | done
  | failed
  | follow (o : ClientRequest)

/-- A client at work: the requests it sends, each with its answer. -/
abbrev Exchange := Prog ClientRequest fun _ => Option RawResponse

namespace NetHttp

variable (lib : NetHttp)

/-- A request as it is written. -/
def onWire (o : ClientRequest) : ClientRequest :=
  { o with
    header := fun name =>
      if name ∈ reqWriteExcludeHeader then lib.writes o name
      else if name = "Accept-Encoding" ∧ asksGzip o.method o.header then o.header name ++ ["gzip"]
      else o.header name }

/-- An answer as `RoundTrip` returns it, of whose body `n` bytes can be read. -/
def decompressed (o : ClientRequest) (a : RawResponse) (n : Nat) : Response :=
  if Compressed o.method o.header a then
    ⟨a.status, (a.header.del "Content-Encoding").del "Content-Length", lib.gunzip (a.body.take n)⟩
  else ⟨a.status, a.header, a.body.take n⟩

/-- An answer that comes before the deadline, which is `left` ahead: what can be read of it by then,
and how far ahead the deadline is when it comes. -/
def inTime (left : Duration) (o : ClientRequest) (a : RawResponse) : Option (Response × Duration) :=
  if a.after < left then
    some (lib.decompressed o a (a.read (left - a.after)), left - a.after)
  else none

/-- `send`, over `Transport.RoundTrip`. -/
def send (left : Duration) (o : ClientRequest) : Exchange (Option (Response × Duration)) := do
  return (← Prog.ask (lib.onWire o)).bind (lib.inTime left o)

/-- What `Client.Do` makes of an answer. -/
def next (o : ClientRequest) (resp : Response) : Next :=
  match redirectBehavior o.method resp.status with
  | none => .done
  | some (method, includeBody) =>
    let loc := resp.header.get "Location"
    if loc = "" then .done
    else
      match lib.locate o.url loc with
      | none => .failed
      | some url =>
        .follow ⟨method, url, lib.copyHeaders o.header o.url url,
          if includeBody then o.body else []⟩

/-- `Client.Do` from an answer on; `again` goes on with the next request. -/
def proceed (again : Duration → ClientRequest → Exchange (Option Response)) (o : ClientRequest) :
    Option (Response × Duration) → Exchange (Option Response)
  | none => return none
  | some (resp, left) =>
    match lib.next o resp with
    | .done => return some resp
    | .failed => return none
    | .follow o' => again left o'

/-- One round of `Client.Do`. -/
def round (again : Duration → ClientRequest → Exchange (Option Response)) (left : Duration)
    (o : ClientRequest) : Exchange (Option Response) := do
  lib.proceed again o (← lib.send left o)

/-- The loop of `Client.Do`, in which some more redirects may be followed. -/
def doLoop : Nat → Duration → ClientRequest → Exchange (Option Response)
  | 0 => lib.round fun _ _ => return none
  | more + 1 => lib.round (doLoop more)

/-- `Client.Do` of a client with a `Timeout`: it stops after ten requests. -/
def do_ (timeout : Duration) (o : ClientRequest) : Exchange (Option Response) :=
  lib.doLoop 9 timeout o

/-- `r.URL.RequestURI()` of a request. -/
def requestTarget (method target : String) : Option String :=
  if target.toList.head? = some '/' then (Go.requestURI target.toList).map String.ofList
  else some (lib.requestURI method target)

/-- `url.Parse` of the base URL, which has no path, with a request URI behind it. -/
def parse (base uri : String) : Option Url :=
  if rooted : uri.toList.head? = some '/' then
    match parsed : Go.requestURI (withoutFragment uri.toList) with
    | none => none
    | some u =>
      some ⟨base, String.ofList u, by
        rw [String.toList_ofList]; exact requestURI_rooted parsed (withoutFragment_rooted rooted)⟩
  else lib.resolve base uri

end NetHttp

variable {lib : NetHttp}

/-- What `net/http` does not manage is written as it is. -/
theorem onWire_header {o : ClientRequest} {name : String} (other : name ∉ managed) :
    (lib.onWire o).header name = o.header name := by
  obtain ⟨encoding, excluded⟩ := List.ne_and_not_mem_of_not_mem_cons other
  exact (if_neg excluded).trans (if_neg fun asked => encoding asked.1)

/-! ## Redirects -/

/-- An answer that `Client.Do` does not return. -/
def Response.Followed (r : Response) : Prop :=
  r.status ∈ [301, 302, 303, 307, 308] ∧ r.header.get "Location" ≠ ""

instance (r : Response) : Decidable r.Followed := inferInstanceAs (Decidable (_ ∧ _))

theorem redirectBehavior_eq_none {method : String} {status : Nat} :
    redirectBehavior method status = none ↔ status ∉ [301, 302, 303, 307, 308] := by
  unfold redirectBehavior
  simp only [List.mem_cons, List.not_mem_nil, or_false]
  split
  · exact iff_of_false (Option.some_ne_none _) (by omega)
  · split
    · exact iff_of_false (Option.some_ne_none _) (by omega)
    · exact iff_of_true rfl (by omega)

theorem next_done_iff {o : ClientRequest} {r : Response} : lib.next o r = .done ↔ ¬r.Followed := by
  unfold NetHttp.next Response.Followed
  split
  · next none => simp only [redirectBehavior_eq_none.mp none, false_and, not_false_eq_true]
  · next method includeBody moved =>
    have listed : r.status ∈ [301, 302, 303, 307, 308] := by
      by_contra other
      rw [redirectBehavior_eq_none.mpr other] at moved
      cases moved
    simp only [listed, true_and, ne_eq, not_not]
    split
    · next blank => simp only [blank]
    · next loc =>
      simp only [loc, iff_false]
      split <;> exact fun same => Next.noConfusion same

/-- An answer that is decompressed is no longer the one that was sent, and neither is one that is
not read to its end. -/
theorem decompressed_eq {o : ClientRequest} {a : RawResponse} {n : Nat} :
    lib.decompressed o a n = a.toResponse ↔
      ¬Compressed o.method o.header a ∧ a.body.length ≤ n := by
  unfold NetHttp.decompressed
  split
  · next compressed =>
    refine iff_of_false (fun same => ?_) (fun plain => plain.1 compressed)
    have none : a.header "Content-Encoding" = [] := by
      rw [← congrArg (fun r : Response => r.header "Content-Encoding") same]
      rfl
    have encoding := compressed.2.2
    rw [Header.get, none] at encoding
    exact absurd encoding (by decide)
  · next plain =>
    rw [and_iff_right plain]
    constructor
    · intro same
      have whole : (a.body.take n).length = a.body.length := congrArg (fun r => r.body.length) same
      rw [List.length_take] at whole
      omega
    · intro read
      rw [List.take_of_length_le read]

/-- What a redirect depends on is left alone. -/
theorem decompressed_followed {o : ClientRequest} {a : RawResponse} {n : Nat} :
    (lib.decompressed o a n).Followed ↔ a.toResponse.Followed := by
  unfold NetHttp.decompressed
  split <;> rfl

end OtusApp.Go
