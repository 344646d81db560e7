import OtusApp.Cstore.Store
import OtusApp.Lib.Program
import OtusApp.Search.Index

/-!
# What a consumer does with an event

`handle` of `cmd/consumer`, under any number of runs at once, of any consumers: each writes an event
to Cassandra and then to Elasticsearch, as far as they are configured. A write may take effect or
not, and the answer to one that did may be lost. What was sent once may take effect again at any
later moment: the driver and the HTTP transport repeat their requests, and a request may be late.

`written` is kept besides: the writes that took effect, newest first.
-/

namespace OtusApp.Projection

open Messaging Program Transition

/-- What a consumer process is configured with. `run` refuses to start without a store. -/
structure Config where
  broker : String
  events : Bool
  index : Bool
  configured : events = true ∨ index = true

/-- A write to one of the stores. -/
inductive Write
  | batch (ev : MessageCreated) (producer : String)
  | document (doc : Search.Document)
deriving DecidableEq, Repr

/-- The code of a handler; a write answers whether it succeeded. -/
abbrev Handler := Prog Write fun _ => Bool

/-- `Save`. -/
def save (ev : MessageCreated) (producer : String) : Handler Bool := .ask (Write.batch ev producer)

/-- `IndexMessage`. -/
def indexMessage (doc : Search.Document) : Handler Bool := .ask (Write.document doc)

/-- The document of an event. -/
def document (ev : MessageCreated) (producer : String) : Search.Document :=
  ⟨ev.id, ev.text, ev.checksum, producer, ev.createdAt⟩

/-- The second half of `handle`. -/
def handleIndex (cfg : Config) (ev : MessageCreated) : Handler Bool :=
  if cfg.index then indexMessage (document ev cfg.broker) else return true

/-- `handle`: whether it returned `nil`. -/
def handle (cfg : Config) (ev : MessageCreated) : Handler Bool :=
  if cfg.events then do
    match ← save ev cfg.broker with
    | false => return false
    | true => handleIndex cfg ev
  else handleIndex cfg ev

/-- The stores, and the writes sent to them so far. -/
structure Stores where
  cassandra : Cstore.Tables
  messages : Search.Index Search.Document
  sent : List Write
  written : List Write

/-- A write takes effect. -/
def Stores.apply (s : Stores) (w : Write) : Stores :=
  let s := { s with written := w :: s.written }
  match w with
  | .batch ev producer => { s with cassandra := s.cassandra.save ev producer }
  | .document doc => { s with messages := Search.indexMessage s.messages doc }

/-- What becomes of a write. -/
inductive Fate
  | done
  | failed
  | lost
deriving DecidableEq, Repr

/-- How a write is answered. -/
def answer (s : Stores) (w : Write) : Fate → Bool × Stores
  | .done => (true, { s with sent := s.sent ++ [w] }.apply w)
  | .failed => (false, { s with sent := s.sent ++ [w] })
  | .lost => (false, { s with sent := s.sent ++ [w] }.apply w)

/-- A write that was sent takes effect once more. -/
def again (s : Stores) (k : Nat) : Option Stores := (s.sent[k]?).map s.apply

/-- The consumers over their stores. -/
def machine : Machine (Config × MessageCreated) Write (fun _ => Bool) Bool Stores Fate Nat :=
  ⟨fun q => handle q.1 q.2, fun s _ => some s, fun s _ w fate => some (answer s w fate), again⟩

/-- Stores just created. -/
def empty : Stores := ⟨⟨[], []⟩, [], [], []⟩

/-- The state of the consumers. -/
abbrev State := Pool (Config × MessageCreated) Write (fun _ => Bool) Bool Stores

/-- The consumers as a transition system. -/
def consumers : System State (Move (Config × MessageCreated) Fate Nat) :=
  machine.system fun s => s = empty

end OtusApp.Projection
