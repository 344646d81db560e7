import OtusApp.Go.Strings

/-!
# HTTP messages

A request and a response as `net/http` hands them to a handler. Header names stand in canonical
form: the server brings the names it reads into it, and the sources write theirs in it. The address
a request comes from is taken apart as the Go library documents it.
-/

namespace OtusApp.Go

/-- `[]byte`, and a Go string where its bytes need not be UTF-8. -/
abbrev Bytes := List UInt8

/-- `http.Header`: the values under each name. -/
abbrev Header := String → List String

namespace Header

def empty : Header := fun _ => []

/-- `Header.Get`: the first value. -/
def get (h : Header) (name : String) : String := (h name).headD ""

/-- `Header.Set`. -/
def set (h : Header) (name value : String) : Header := fun n => if n = name then [value] else h n

/-- `Header.Add`, once for each of `values`. -/
def add (h : Header) (name : String) (values : List String) : Header :=
  fun n => if n = name then h n ++ values else h n

/-- `Header.Del`. -/
def del (h : Header) (name : String) : Header := fun n => if n = name then [] else h n

@[simp] theorem get_set (h : Header) (name value : String) :
    (h.set name value).get name = value := by
  simp [get, set]

theorem get_set_ne (h : Header) {name other : String} (value : String) (ne : other ≠ name) :
    (h.set name value).get other = h.get other := by
  simp [get, set, ne]

end Header

/-- `http.Request`. -/
structure Request where
  method : String
  uri : String
  header : Header
  body : Bytes
  remoteAddr : String

/-- `http.Response`, or what a handler writes. -/
structure Response where
  status : Nat
  header : Header
  body : Bytes

/-- What can be read of a body: its bytes, and whether its end comes after them or an error. -/
structure Upload where
  bytes : Bytes
  complete : Bool
deriving DecidableEq, Repr

/-- `http.MaxBytesReader`. -/
def maxBytesReader (limit : Nat) (u : Upload) : Upload :=
  if u.bytes.length ≤ limit then u else ⟨u.bytes.take limit, false⟩

/-- `io.Copy` of a body: all of it, or what came through before the connection broke. -/
def through (cut : Option Nat) (body : Bytes) : Bytes :=
  match cut with
  | none => body
  | some n => body.take n

theorem through_isPrefix (cut : Option Nat) (body : Bytes) : through cut body <+: body := by
  cases cut with
  | none => exact List.prefix_rfl
  | some n => exact List.take_prefix n body

/-! ## Addresses -/

/-- `net.SplitHostPort`: the port follows the last colon, a host with colons of its own stands in
brackets, and there are no brackets besides. -/
def splitHostPort (hostport : String) : Option (String × String) :=
  let chars := hostport.toList
  match chars.reverse.idxOf? ':' with
  | none => none
  | some fromEnd =>
    let i := chars.length - 1 - fromEnd
    let port := String.ofList (chars.drop (i + 1))
    if chars.head? = some '[' then
      match chars.idxOf? ']' with
      | none => none
      | some close =>
        if close + 1 ≠ i then none
        else if '[' ∈ chars.drop 1 ∨ ']' ∈ chars.drop (close + 1) then none
        else some (String.ofList ((chars.take close).drop 1), port)
    else if ':' ∈ chars.take i then none
    else if '[' ∈ chars ∨ ']' ∈ chars then none
    else some (String.ofList (chars.take i), port)

end OtusApp.Go
