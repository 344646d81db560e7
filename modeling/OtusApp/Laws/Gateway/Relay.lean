import OtusApp.Chaosproxy.Proxy
import OtusApp.Gateway.Forward

/-!
# What goes on to the app

The requests that the gateway and the chaos proxy send on, as far as their headers go.
-/

namespace OtusApp.Gateway

open Go Program Hop Site

/-- A header that is meant for both ends is copied. -/
theorem copyHeaders_get {name : String} (passes : isHopHeader name = false) (header : Header) :
    (copyHeaders Header.empty header).get name = header.get name := by
  simp [copyHeaders, Header.get, Header.empty, passes]

section Proxy

variable {asks : Request × Chaosproxy.Draws → Request → Prop} {q : Request × Chaosproxy.Draws}
  {out : Request} (asked : asks q out) (json : Handlers.Json) (x : Chaosproxy.Draws)

include asked

theorem attempt_sends {next : Response → Client Request Response Response}
    (rest : ∀ resp, (next resp).All (Sends asks q)) :
    (Chaosproxy.attempt json out x next).All (Sends asks q) := by
  unfold Chaosproxy.attempt
  split
  · refine Prog.all_bind (call_sends asked) fun result => ?_
    split
    · trivial
    · exact rest _
  · trivial

/-- The loop of the proxy sends one request only. -/
theorem loop_sends (left : Nat) : (Chaosproxy.loop json out x left).All (Sends asks q) := by
  induction left with
  | zero => exact attempt_sends asked json x fun _ => trivial
  | succ left ih => exact attempt_sends asked json x fun _ => ih

end Proxy

/-- The proxy sends a request on under the header it came with. -/
theorem serveHTTP_sends (json : Handlers.Json) (q : Request × Chaosproxy.Draws) :
    (Chaosproxy.serveHTTP json q.1 q.2).All (Sends (fun q out => out.header = q.1.header) q) := by
  unfold Chaosproxy.serveHTTP
  split
  · trivial
  · split
    · exact loop_sends rfl json q.2 _
    · trivial

/-- The gateway sends a request on under the header it made for it. -/
theorem forward_sends (json : Handlers.Json) (method : String) (q : Request × Draws) :
    (forward json method q.1 q.2).All
      (Sends (fun q out => out.header = forwardHeader method q.1 q.2) q) := by
  unfold forward
  split
  · refine Prog.all_bind (call_sends rfl) fun result => ?_
    split <;> trivial
  · trivial

end OtusApp.Gateway
