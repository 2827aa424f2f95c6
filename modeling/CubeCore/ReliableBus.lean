import CubeCore.Interleaving

namespace CubeCore.ReliableBus

open Interleaving TransitionSystem Function

structure NatsMsg where
  fromSid : Int
  toSid : Int
  toModule : String
  msgName : String
  payload : List UInt8
  broadcast : Int
  msgID : String
  attempt : Int
  createdAt : Int
deriving DecidableEq

structure DeadLetterEntry extends NatsMsg where
  consumer : String
  reason : String
  failedAt : Int
deriving DecidableEq

/-- What `Config` and `ReliableConfig` say, with their defaults filled in. -/
structure Config where
  sid : Int
  svcType : String
  workerNum : Nat
  queueCap : Nat
  space : String
  maxDLQEntries : Int

inductive Mark where
  | processing
  | done
  | failed
deriving DecidableEq

/-- The marks of the inbox and the dead letter lists by their keys. -/
structure Store where
  inbox : String → Option Mark
  lists : String → List DeadLetterEntry

variable (cfg : Config)

/-- `ReliableConsumer.Key` of the consumer of a bus. -/
def consumerKey : String :=
  (if cfg.svcType = "" then "_" else cfg.svcType) ++ ":" ++ toString cfg.sid

def inboxKey (msgID : String) : String :=
  cfg.space ++ ":inbox:" ++ consumerKey cfg ++ ":" ++ msgID

def deadLetterKey (module msgName : String) : String :=
  cfg.space ++ ":dlq:" ++ (if module = "" then "_" else module) ++ ":" ++
    if msgName = "" then "_" else msgName

namespace Store

/-- The mark of a message; one without an id has none. -/
def setMark (s : Store) (cfg : Config) (msg : NatsMsg) (mark : Mark) : Store :=
  if msg.msgID = "" then s
  else { s with inbox := update s.inbox (inboxKey cfg msg.msgID) (some mark) }

/-- `BeginConsume`: SETNX of the mark. -/
def beginConsume (s : Store) (cfg : Config) (msg : NatsMsg) : Bool × Store :=
  if msg.msgID = "" then (true, s)
  else
    match s.inbox (inboxKey cfg msg.msgID) with
    | some _ => (false, s)
    | none => (true, s.setMark cfg msg .processing)

def finishConsume (s : Store) (cfg : Config) (msg : NatsMsg) : Store := s.setMark cfg msg .done

/-- `AppendRaw`: RPUSH, and LTRIM to the last entries when there is a limit. -/
def appendRaw (s : Store) (maxEntries : Int) (key : String) (entry : DeadLetterEntry) : Store :=
  let entries := s.lists key ++ [entry]
  let entries :=
    if 0 < maxEntries then entries.drop (entries.length - maxEntries.toNat) else entries
  { s with lists := update s.lists key entries }

end Store

/-- A pool is known by its first worker; `started` says which run their loop. Ghost data: the ids
delivered, those whose handler returned, and who has begun with an id or writes its dead letter. -/
structure Bus where
  lifeMu : Bool
  pool : Option Nat
  stopped : Nat → Bool
  workers : Nat
  started : Nat → Bool
  closed : Nat → Bool
  queues : Nat → List NatsMsg
  handlers : String → Bool
  store : Store
  delivered : List String
  completed : List String
  owner : String → Option Nat

/-- In `dispatchTask`, in the loop of a worker, in `dispatchMsg`, in `DeadLetter` (and then back in
its loop), or in `stopLocked`. -/
inductive PC where
  | idle
  | dispatch (msg : NatsMsg)
  | pick (pool : Nat) (msg : NatsMsg)
  | cast (worker : Nat) (msg : NatsMsg)
  | push (worker : Nat) (msg : NatsMsg)
  | loop (worker : Nat)
  | lookup (worker : Nat) (msg : NatsMsg)
  | begin (worker : Nat) (msg : NatsMsg)
  | handle (worker : Nat) (msg : NatsMsg)
  | finish (worker : Nat) (msg : NatsMsg)
  | append (worker : Option Nat) (msg : NatsMsg) (reason : String)
  | mark (worker : Option Nat) (msg : NatsMsg)
  | closing (pool i : Nat)
  | ended
deriving DecidableEq

/-- Calls and deliveries, steps, the end of a handler, and the ends of lifetimes in Redis. -/
inductive Act where
  | start
  | stop
  | handle (module msgName : String)
  | loop (worker : Nat)
  | deliver (msg : NatsMsg)
  | run (now : Int)
  | returned
  | panicked (value : String)
  | expireMark (key : String)
  | expireList (key : String)

def hashString (s : String) : UInt64 :=
  s.toList.foldl (fun h c => h * 31 + UInt64.ofNat c.toNat) 0

def hash64 (x : UInt64) : UInt64 :=
  let x := (x ^^^ (x >>> 30)) * 0xbf58476d1ce4e5b9
  let x := (x ^^^ (x >>> 27)) * 0x94d049bb133111eb
  x ^^^ (x >>> 31)

/-- The worker of a pool that `pickWorker` takes for a message. -/
def workerOf (pool : Nat) (msg : NatsMsg) : Nat :=
  pool + (hash64 (hashString msg.toModule)).toNat % cfg.workerNum

def handlerKey (module msgName : String) : String := module ++ ":" ++ msgName

def entryOf (msg : NatsMsg) (reason : String) (now : Int) : DeadLetterEntry :=
  { msg with consumer := consumerKey cfg, reason, failedAt := now }

def setOwner (s : Bus) (msg : NatsMsg) (g : Option Nat) : String → Option Nat :=
  if msg.msgID = "" then s.owner else update s.owner msg.msgID g

/-- A message that is not handled goes to the dead letters. -/
def refuse (g : Nat) (s : Bus) (worker : Option Nat) (msg : NatsMsg) (reason : String) : Bus × PC :=
  ({ s with owner := setOwner s msg (some g) }, .append worker msg reason)

/-- Where a goroutine goes on after `DeadLetter`. -/
def PC.after : Option Nat → PC
  | none => .idle
  | some worker => .loop worker

def step (g : Nat) (s : Bus) : PC → Act → Option (Bus × PC)
  -- Start and StopWithContext, which gives up waiting when its context ends
  | .idle, .start =>
    if s.lifeMu then none
    else
      match s.pool with
      | some _ => some (s, .idle)
      | none =>
        some ({ s with pool := some s.workers, workers := s.workers + cfg.workerNum }, .idle)
  | .idle, .stop =>
    if s.lifeMu then none
    else
      match s.pool with
      | none => some (s, .idle)
      | some pool =>
        some ({ s with lifeMu := true, stopped := update s.stopped pool true },
          .closing pool 0)
  | .closing pool i, .run _ =>
    if i < cfg.workerNum then
      some ({ s with closed := update s.closed (pool + i) true }, .closing pool (i + 1))
    else some ({ s with lifeMu := false, pool := none }, .idle)
  | .idle, .handle module msgName =>
    some ({ s with handlers := update s.handlers (handlerKey module msgName) true }, .idle)
  -- onMessage, dispatchTask
  | .idle, .deliver msg =>
    some ({ s with delivered := msg.msgID :: s.delivered }, .dispatch msg)
  | .dispatch msg, .run _ =>
    if s.lifeMu then none
    else
      match s.pool with
      | none => some (refuse g s none msg "dispatcher not running")
      | some pool => some (s, .pick pool msg)
  | .pick pool msg, .run _ =>
    if s.stopped pool ∨ cfg.workerNum = 0 then
      some (refuse g s none msg "dispatch failed: worker: closed")
    else some (s, .cast (workerOf cfg pool msg) msg)
  | .cast worker msg, .run _ =>
    if s.closed worker then some (refuse g s none msg "dispatch failed: worker: queue full")
    else some (s, .push worker msg)
  | .push worker msg, .run _ =>
    if (s.queues worker).length < cfg.queueCap then
      some ({ s with queues := update s.queues worker (s.queues worker ++ [msg]) }, .idle)
    else some (refuse g s none msg "dispatch failed: worker: queue full")
  -- the loop of a worker
  | .idle, .loop worker =>
    if worker < s.workers ∧ s.started worker = false then
      some ({ s with started := update s.started worker true }, .loop worker)
    else none
  | .loop worker, .run _ =>
    match s.queues worker with
    | msg :: queue =>
      some ({ s with queues := update s.queues worker queue }, .lookup worker msg)
    | [] => if s.closed worker then some (s, .ended) else none
  -- dispatchMsg
  | .lookup worker msg, .run _ =>
    if s.handlers (handlerKey msg.toModule msg.msgName) then some (s, .begin worker msg)
    else some (refuse g s (some worker) msg "bus: no handler registered")
  | .begin worker msg, .run _ =>
    match s.store.beginConsume cfg msg with
    | (false, _) => some (s, .loop worker)
    | (true, store) => some ({ s with store, owner := setOwner s msg (some g) }, .handle worker msg)
  | .handle worker msg, .returned =>
    some ({ s with completed := msg.msgID :: s.completed }, .finish worker msg)
  | .handle worker msg, .panicked value => some (s, .append (some worker) msg ("panic: " ++ value))
  | .finish worker msg, .run _ =>
    some ({ s with store := s.store.finishConsume cfg msg, owner := setOwner s msg none },
      .loop worker)
  -- DeadLetter
  | .append worker msg reason, .run now =>
    some ({ s with
        store := s.store.appendRaw cfg.maxDLQEntries
          (deadLetterKey cfg msg.toModule msg.msgName) (entryOf cfg msg reason now) },
      .mark worker msg)
  | .mark worker msg, .run _ =>
    some ({ s with store := s.store.setMark cfg msg .failed, owner := setOwner s msg none },
      .after worker)
  -- Redis
  | .idle, .expireMark key =>
    some ({ s with store.inbox := update s.store.inbox key none }, .idle)
  | .idle, .expireList key =>
    some ({ s with store.lists := update s.store.lists key [] }, .idle)
  | _, _ => none

def next (cfg : Config) : Threads Bus PC → Nat × Act → Option (Threads Bus PC) :=
  Interleaving.next (step cfg)

def newBus : Bus where
  lifeMu := false
  pool := none
  stopped := fun _ => false
  workers := 0
  started := fun _ => false
  closed := fun _ => false
  queues := fun _ => []
  handlers := fun _ => false
  store := ⟨fun _ => none, fun _ => []⟩
  delivered := []
  completed := []
  owner := fun _ => none

def Initial (s : Threads Bus PC) : Prop := s = ⟨newBus, fun _ => .idle⟩

end CubeCore.ReliableBus
