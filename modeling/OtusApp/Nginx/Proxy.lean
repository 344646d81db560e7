import OtusApp.Go.Http

/-!
# The front proxy

What `default.conf` makes of the header of a request to the app or to the gateway: the
`proxy_set_header` lines of its server, which the locations of both inherit.
-/

namespace OtusApp.Nginx

open Go

/-- A text that is one element of a list, as it stands. -/
def element (text : String) : Bool := text.toList.all fun c => c ≠ ',' && !isSpace c

/-- The address of a client, as `$remote_addr` writes it. -/
structure Address where
  text : String
  nonempty : text ≠ ""
  plain : element text = true

theorem Address.char {addr : Address} {c : Char} (mem : c ∈ addr.text.toList) :
    c ≠ ',' ∧ isSpace c = false := by
  simpa using List.all_eq_true.mp addr.plain c mem

/-- `$proxy_add_x_forwarded_for`: every value the client sent, and the client's address. -/
def proxyAddXForwardedFor (addr : Address) (values : List String) : String :=
  values.foldr (fun v rest => v ++ ", " ++ rest) addr.text

/-- The header that goes on, of a request to `$host`. -/
def proxySetHeader (addr : Address) (host : String) (header : Header) : Header :=
  header
    |>.set "X-Real-Ip" addr.text
    |>.set "X-Forwarded-For" (proxyAddXForwardedFor addr (header "X-Forwarded-For"))
    |>.set "X-Forwarded-Proto" "https"
    |>.set "X-Forwarded-Host" host
    |>.set "X-Forwarded-Port" "443"

/-- A request goes on, from a socket of the proxy. -/
def proxyPass (addr : Address) (host socket : String) (req : Request) : Request :=
  { req with header := proxySetHeader addr host req.header, remoteAddr := socket }

end OtusApp.Nginx
