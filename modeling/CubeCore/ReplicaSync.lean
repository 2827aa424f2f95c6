import CubeCore.LocalCache

namespace CubeCore.ReplicaSync

open AtomicLocal LocalCache

/-- The operation of an envelope, which may be left out of its JSON. -/
inductive Op where
  | unset
  | upsert
  | delete
deriving DecidableEq

structure Envelope (B : Type) where
  topic : String
  key : Int
  version : Int
  op : Op
  payload : B
  updatedAt : Int
deriving DecidableEq

structure SyncMsg (B : Type) where
  topic : String
  key : Int
  version : Int
  data : B
deriving DecidableEq

/-- The JSON of values and envelopes, as byte strings `B`. -/
structure Codec (B V : Type) where
  empty : B
  marshal : V → Except String B
  unmarshal : B → Except String V
  marshalEnvelope : Envelope B → B
  unmarshalEnvelope : B → Except String (Envelope B)

/-- `ReplicaConfig`; a function that is nil is `none`. -/
structure ReplicaConfig (K V : Type) where
  topic : String
  keyOf : Option (V → Int)
  versionOf : Option (V → Int)
  updatedAtOf : Option (V → Int)
  deleteKeyOf : Option (Int → K)

variable {B K V : Type}

def replicatorPublish (codec : Codec B V) (topic : String) (env : Envelope B) (now : Int) :
    Option (SyncMsg B) :=
  if topic = "" then none
  else
    let env :=
      { env with
        topic := if env.topic = "" then topic else env.topic
        op := if env.op = .unset then .upsert else env.op
        updatedAt := if env.updatedAt = 0 then now else env.updatedAt }
    some { topic, key := env.key, version := env.version, data := codec.marshalEnvelope env }

/-- `ReplicaSyncer.Publish`: the message it publishes, if any. -/
def publish (codec : Codec B V) (cfg : ReplicaConfig K V) (value : V) (now : Int) :
    Option (SyncMsg B) :=
  match cfg.keyOf with
  | none => none
  | some keyOf =>
    let version := (cfg.versionOf.map (· value)).getD 0
    let updatedAt := (cfg.updatedAtOf.map (· value)).getD 0
    let updatedAt := if updatedAt = 0 then now else updatedAt
    match codec.marshal value with
    | .error _ => none
    | .ok raw =>
      replicatorPublish codec cfg.topic
        { topic := "", key := keyOf value, version, op := .upsert, payload := raw, updatedAt } now

def publishDelete (codec : Codec B V) (topic : String) (key version : Int) : Option (SyncMsg B) :=
  if topic = "" then none else some { topic, key, version, data := codec.empty }

variable [DecidableEq B]

/-- What the subscriber makes of a message. Fields left out of the JSON keep what the message
says. -/
def received (codec : Codec B V) (topic : String) (msg : SyncMsg B) : Option (Envelope B) :=
  if msg.key = 0 then none
  else if msg.data = codec.empty then
    some
      { topic
        key := msg.key
        version := msg.version
        op := .delete
        payload := codec.empty
        updatedAt := 0 }
  else
    match codec.unmarshalEnvelope msg.data with
    | .error _ => none
    | .ok env =>
      some
        { env with
          topic := if env.topic = "" then topic else env.topic
          key := if env.key = 0 then msg.key else env.key
          version := if env.version = 0 then msg.version else env.version
          op := if env.op = .unset then .upsert else env.op }

variable [DecidableEq K]

def applyReplica (codec : Codec B V) (cfg : ReplicaConfig K V) (s : LocalStore K V)
    (env : Envelope B) : LocalStore K V :=
  if env.key = 0 then s
  else if env.op = .delete then
    match cfg.deleteKeyOf with
    | none => s
    | some deleteKeyOf => delete s (deleteKeyOf env.key)
  else
    match codec.unmarshal env.payload with
    | .error _ => s
    | .ok value => (set s value).2

/-- A message at the replica. -/
def handle (codec : Codec B V) (cfg : ReplicaConfig K V) (s : LocalStore K V) (msg : SyncMsg B) :
    LocalStore K V :=
  match received codec cfg.topic msg with
  | none => s
  | some env => applyReplica codec cfg s env

end CubeCore.ReplicaSync
