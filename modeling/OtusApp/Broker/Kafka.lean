import OtusApp.Broker.Client
import OtusApp.Consumer.Supervise
import OtusApp.Go.Strconv

/-!
# Kafka

`internal/broker/kafka.go` over the Kafka client. The creation of the topic is one call, whose error
the consumer only logs; so is a write, with the attempts the writer makes by itself. Lost is the
time of a record, which only the topic's retention looks at.
-/

namespace OtusApp.Broker.Kafka

open Messaging Go Program
open Consumer (Record)

/-- A call of the Kafka client. A reader goes by a number. -/
inductive Call (P : Type)
  | ensureTopic (brokers : List String) (topic : String) (partitions replicas : Int)
  | newReader (brokers : List String) (topic group : String)
  | fetchMessage (reader : Nat)
  | commitMessages (reader : Nat) (partition offset : Nat)
  | writeMessages (topic key : String) (value : P)
  | close (reader : Nat)

variable {P : Type}

/-- What a call returns, an error as whether it is `nil`. -/
def Call.Result : Call P → Type
  | .ensureTopic .. => Bool
  | .newReader .. => Nat
  | .fetchMessage _ => Option (Nat × Record P)
  | .commitMessages .. => Bool
  | .writeMessages .. => Bool
  | .close _ => Unit

/-- A program over the calls. -/
abbrev Code (P : Type) := Broker.Code (Call P) Call.Result

abbrev call (e : Call P) : Code P e.Result := client e

/-- `kafkaSettings`. -/
structure Settings where
  brokers : List String
  topic : String
  group : String
  partitions : Int
  replicas : Int

/-- `kafkaPublisher.Publish`. -/
def publish (codec : EventCodec) (cfg : Settings) (ev : MessageCreated) :
    Code codec.Payload (Bool × Unit) :=
  match codec.marshal ev with
  | none => return (false, ())
  | some payload => do
    let ok : Bool ← call (.writeMessages cfg.topic (formatInt ev.id 10) payload)
    return (ok, ())

/-- `newKafkaConsumer`. -/
def newKafkaConsumer (cfg : Settings) : Code P (Option Nat) := do
  if cfg.brokers = [] then return none
  let _ ← call (.ensureTopic cfg.brokers cfg.topic cfg.partitions cfg.replicas)
  let reader : Nat ← call (.newReader cfg.brokers cfg.topic cfg.group)
  return some reader

/-- The rest of an iteration of `Consume`, from the answer of `CommitMessages` on. -/
def committed (again : Nat → Code P (Option Nat)) (attempt : Nat) (ok : Bool) :
    Code P (Option Nat) :=
  if ok then again attempt else return some attempt

/-- The rest of an iteration of `Consume`, from the result of `handle` on. -/
def handled (again : Nat → Code P (Option Nat)) (reader partition : Nat) (r : Record P) :
    Bool × Nat → Code P (Option Nat)
  | (false, attempt) => return some attempt
  | (true, attempt) => do
    let ok : Bool ← call (.commitMessages reader partition r.offset)
    committed again attempt ok

/-- The rest of an iteration of `Consume`, from a record on. -/
def received (codec : EventCodec) (handle : Handle (Call codec.Payload) Call.Result)
    (again : Nat → Code codec.Payload (Option Nat)) (reader partition : Nat)
    (r : Record codec.Payload) (attempt : Nat) : Code codec.Payload (Option Nat) :=
  match codec.unmarshal r.value with
  | none => return some attempt
  | some ev => do
    handled again reader partition r (← handle ev attempt)

/-- The loop of `Consume`, as far as `turns` iterations. -/
def iterate (codec : EventCodec) (handle : Handle (Call codec.Payload) Call.Result) (reader : Nat) :
    Nat → Nat → Code codec.Payload (Option Nat)
  | 0, _ => return none
  | turns + 1, attempt => do
    let msg : Option (Nat × Record codec.Payload) ← call (.fetchMessage reader)
    match msg with
    | none =>
      if !(← running) then return some attempt
      sleep Duration.second
      iterate codec handle reader turns attempt
    | some (partition, r) =>
      received codec handle (iterate codec handle reader turns) reader partition r attempt

/-- `kafkaConsumer.Consume`. -/
def consume (codec : EventCodec) (turns : Nat) (handle : Handle (Call codec.Payload) Call.Result)
    (reader : Nat) (attempt : Nat) : Code codec.Payload (Option (Nat × Nat)) := do
  return (← iterate codec handle reader turns attempt).map fun attempt => (reader, attempt)

/-- The package's Kafka. -/
def kafka (codec : EventCodec) (cfg : Settings) : Client (Call codec.Payload) Call.Result where
  Publisher := Unit
  Consumer := Nat
  publish _ := publish codec cfg
  newConsumer := newKafkaConsumer cfg
  consume := consume codec
  close reader := call (.close reader)

end OtusApp.Broker.Kafka
