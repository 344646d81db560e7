import OtusApp.Go.Duration
import OtusApp.Go.Http
import OtusApp.Go.Int64
import OtusApp.Lib.Program

/-!
# Access control

What `Auth.Middleware` and `checkAuth` have in common comes first: the bearer token of a request,
and the error either reports. Whether `Validate` accepts the token at that moment is given by the
caller.

`Auth.Validate`, `keyFor` and `refreshKeys` follow, as programs over the fields of `Auth`, its
mutex, the clock and the JWKS endpoint, run by any number of requests at once. What the libraries
read out of a token, a document and a base64 text is given. `fetches` is kept besides: when each
fetch was started, and what it was answered, newest first.
-/

namespace OtusApp.Security

open Go Program Transition

/-- The token of an `Authorization` value. -/
def bearer (value : String) : Option String :=
  match cutPrefix value "Bearer " with
  | none => none
  | some raw => if raw = "" then none else some raw

/-- The check on a protected operation: the error it is refused with. -/
def authorize (enabled valid : Bool) (value : String) : Option String :=
  if enabled then
    match bearer value with
    | none => some "требуется токен авторизации"
    | some _ => if valid then none else some "недействительный токен"
  else none

/-! ## Tokens and keys -/

/-- `rsa.PublicKey`. -/
structure PublicKey where
  n : Nat
  e : Int
deriving DecidableEq, Repr

/-- A key of a JWKS document. -/
structure Jwk where
  kty : String
  kid : String
  n : String
  e : String
deriving DecidableEq, Repr

/-- A date among the claims; zero counts as missing. -/
inductive Date
  | missing
  | malformed
  | at (time : Instant)
deriving DecidableEq, Repr

/-- A token, as `jwt.Parse` reads it. The key's name is empty where it is missing or no text, the
issuer where it is missing; an issuer that is no text is `none`. -/
structure Token where
  alg : String
  kid : String
  signed : PublicKey → Bool
  exp : Date
  nbf : Date
  iss : Option String

/-- A token, with the time at which `jwt.Parse` checks its claims. It does so past the mutex, on
nothing that the validations share, so the time is given and may be any. -/
structure Presented where
  raw : String
  checked : Instant
deriving DecidableEq, Repr

/-- What the JWKS endpoint answers. -/
structure Answer where
  statusCode : Nat
  status : String
  body : Bytes
deriving DecidableEq, Repr

/-- What the libraries read, and the issuer that `Auth` asks for. -/
structure Libraries where
  issuer : String
  parse : String → Option Token
  decode : Bytes → Except String (List Jwk)
  base64 : String → Option Bytes

/-- `map[string]*rsa.PublicKey`. -/
abbrev Keys := List (String × PublicKey)

/-- A key under its name. -/
def Keys.find (keys : Keys) (kid : String) : Option PublicKey :=
  (List.find? (fun k => k.1 = kid) keys).map Prod.snd

/-- An assignment to the map. -/
def Keys.assign (keys : Keys) (kid : String) (key : PublicKey) : Keys :=
  (kid, key) :: keys.filter fun k => k.1 ≠ kid

/-- A call of the code on what it shares, or on the endpoint. -/
inductive Call
  | lock
  | unlock
  | key (kid : String)
  | since
  | get
  | setKeys (keys : Keys)
  | setRefresh

/-- What a call returns. `since` is `time.Since(a.lastRefresh)`. -/
def Call.Result : Call → Type
  | .lock => Unit
  | .unlock => Unit
  | .key _ => Option PublicKey
  | .since => Duration
  | .get => Except String Answer
  | .setKeys _ => Unit
  | .setRefresh => Unit

/-- The code of `Auth`. -/
abbrev Code := Prog Call Call.Result

/-! ## The code -/

/-- `big.Int.SetBytes`. -/
def setBytes (bytes : Bytes) : Nat := bytes.foldl (fun n b => n * 256 + b.toNat) 0

/-- The key of a document's entry, if it has one. -/
def rsaKey (lib : Libraries) (k : Jwk) : Option PublicKey :=
  if k.kty ≠ "RSA" then none
  else
    match lib.base64 k.n with
    | none => none
    | some n =>
      match lib.base64 k.e with
      | none => none
      | some e => some ⟨setBytes n, wrap64 (setBytes e)⟩

/-- The loop of `refreshKeys`. -/
def rsaKeys (lib : Libraries) : Keys → List Jwk → Keys
  | keys, [] => keys
  | keys, k :: rest =>
    match rsaKey lib k with
    | none => rsaKeys lib keys rest
    | some key => rsaKeys lib (keys.assign k.kid key) rest

/-- `refreshKeys` from the answer up to its assignments. -/
def readKeys (lib : Libraries) : Except String Answer → Except String Keys
  | .error e => .error e
  | .ok resp =>
    if resp.statusCode ≠ 200 then .error ("JWKS вернул статус " ++ resp.status)
    else
      match lib.decode resp.body with
      | .error e => .error e
      | .ok doc =>
        if rsaKeys lib [] doc = [] then .error "в JWKS нет RSA-ключей" else .ok (rsaKeys lib [] doc)

/-- `refreshKeys`. -/
def refreshKeys (lib : Libraries) : Code (Option String) := do
  let resp ← (.ask Call.get : Code (Except String Answer))
  match readKeys lib resp with
  | .error e => return some e
  | .ok keys =>
    (.ask (Call.setKeys keys) : Code Unit)
    (.ask Call.setRefresh : Code Unit)
    return none

/-- The end of `keyFor`, after a fetch. -/
def found (kid : String) : Code (Except String PublicKey) := do
  match ← (.ask (Call.key kid) : Code (Option PublicKey)) with
  | some key => return .ok key
  | none => return .error "ключ подписи не найден"

/-- `keyFor` between its lock and its unlock. -/
def lockedKeyFor (lib : Libraries) (kid : String) : Code (Except String PublicKey) := do
  match ← (.ask (Call.key kid) : Code (Option PublicKey)) with
  | some key => return .ok key
  | none =>
    let elapsed : Duration ← (.ask Call.since : Code Duration)
    if elapsed < 30 * Duration.second then return .error "ключ подписи не найден"
    else
      match ← refreshKeys lib with
      | some e => return .error e
      | none => found kid

/-- `keyFor`. -/
def keyFor (lib : Libraries) (kid : String) : Code (Except String PublicKey) :=
  if kid = "" then return .error "в токене нет kid"
  else do
    (.ask Call.lock : Code Unit)
    let key ← lockedKeyFor lib kid
    (.ask Call.unlock : Code Unit)
    return key

/-- Why a token is refused: by the library, or for want of a key. -/
inductive Refusal
  | library
  | key (text : String)
deriving DecidableEq, Repr

/-- The check of `exp`, which `WithExpirationRequired` asks for. -/
def Date.expires (now : Instant) : Date → Bool
  | .missing => false
  | .malformed => false
  | .at time => now < time

/-- The check of `nbf`. -/
def Date.begins (now : Instant) : Date → Bool
  | .missing => true
  | .malformed => false
  | .at time => time ≤ now

/-- The check of the claims. An empty issuer is no option of the parser's. -/
def Token.inForce (token : Token) (issuer : String) (now : Instant) : Bool :=
  token.exp.expires now && token.nbf.begins now && (issuer = "" || token.iss = some issuer)

/-- `Validate`: `jwt.Parse` looks for a key only if the token can be read and its method is
admitted, and checks the signature and the claims with it. -/
def validate (lib : Libraries) (token : Presented) : Code (Option Refusal) :=
  match lib.parse token.raw with
  | none => return some .library
  | some t =>
    if t.alg ≠ "RS256" then return some .library
    else do
      match ← keyFor lib t.kid with
      | .error text => return some (.key text)
      | .ok key =>
        return if t.signed key && t.inForce lib.issuer token.checked then none else some .library

/-! ## What it runs over -/

/-- A fetch: when it was started, and what it was answered. -/
structure Fetch where
  time : Instant
  answer : Except String Answer

/-- The fields of `Auth`, and the clock. No refresh yet is the zero time. -/
structure Env where
  clock : Instant
  holder : Option Nat
  keys : Keys
  lastRefresh : Option Instant
  fetches : List Fetch

/-- The longest `time.Duration`. -/
def maxDuration : Duration := 9223372036854775807

/-- `time.Since`, of the zero time as well; a longer time is cut to the longest. -/
def since (now : Instant) : Option Instant → Duration
  | none => maxDuration
  | some t => min (now - t) maxDuration

/-- How a call is answered; the endpoint answers as it likes. -/
def respond (s : Env) (i : Nat) : (call : Call) → Except String Answer → Option (call.Result × Env)
  | .lock, _ => if s.holder = none then some ((), { s with holder := some i }) else none
  | .unlock, _ => some ((), { s with holder := none })
  | .key kid, _ => some (s.keys.find kid, s)
  | .since, _ => some (since s.clock s.lastRefresh, s)
  | .get, answer => some (answer, { s with fetches := ⟨s.clock, answer⟩ :: s.fetches })
  | .setKeys keys, _ => some ((), { s with keys := keys })
  | .setRefresh, _ => some ((), { s with lastRefresh := some s.clock })

/-- The clock moves on. -/
def tick (s : Env) (elapsed : Nat) : Option Env := some { s with clock := s.clock + elapsed }

/-- `Validate` of any number of tokens. -/
def machine (lib : Libraries) :
    Machine Presented Call Call.Result (Option Refusal) Env (Except String Answer) Nat :=
  ⟨validate lib, fun s _ => some s, fun s caller => respond s caller.1, tick⟩

/-- `Auth` as `NewAuth` leaves it. -/
def Fresh (s : Env) : Prop := s.holder = none ∧ s.keys = [] ∧ s.lastRefresh = none ∧ s.fetches = []

/-- The state of the validations. -/
abbrev State := Pool Presented Call Call.Result (Option Refusal) Env

/-- The validations as a transition system. -/
def auth (lib : Libraries) : System State (Move Presented (Except String Answer) Nat) :=
  (machine lib).system Fresh

end OtusApp.Security
