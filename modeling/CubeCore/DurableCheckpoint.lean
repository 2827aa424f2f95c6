import CubeCore.SnapshotWal

namespace CubeCore.DurableCheckpoint

open SaveItems FlusherSystem SnapshotWal

variable {V : Type}

/-- `doc` and `version` are ghost data: the document and the version flushed, none for a remove. -/
structure AckTask where
  target : String
  shard : Nat
  doc : Target
  version : Option Nat
deriving DecidableEq

variable (wal : WalConfig)

def ackTask (version : Option Nat) (item : SaveItem V) : Option AckTask :=
  if item.target.collection = "" ∨ item.target.id = 0 then none
  else some {
    target := redisSnapshotWALTarget item.target
    shard := redisSnapshotWALShard (redisSnapshotWALTarget item.target) wal.shards
    doc := item.target
    version := version }

/-- The tasks of the `Ack` call a goroutine of the flusher is about to make. -/
def ackTasks : PC V → Option (List AckTask)
  | .ackSaves _ _ _ acks => some (acks.filterMap fun w => ackTask wal (some w.version) w)
  | .ackRemoves _ group _ =>
    some (group.2.filterMap fun r => ackTask wal none (removeItem (V := V) group.1 r))
  | _ => none

/-- `Ack` hands its tasks to the WAL workers while they run, and otherwise deletes them itself. -/
inductive AckPC where
  | idle
  | enqueue (todo : List AckTask)
  | direct (todo : List AckTask)
  | directHalf (shard : Nat) (todo : List AckTask)
  | finished (ok : Bool)
deriving DecidableEq

/-- A `Submit` or `SubmitRemove` call. In `added` the HSet of `item` is done. -/
inductive SubmitPC (V : Type) where
  | idle
  | write (remove : Bool) (items todo : List (SaveItem V))
  | added (remove : Bool) (items : List (SaveItem V)) (item : SaveItem V)
      (todo : List (SaveItem V))
  | returned (ok : Bool)

/-- `accepted` and `deleted` are ghost data: the saves accepted by `Submit` and the documents
removed. -/
structure Durable (V : Type) where
  flusher : State V
  redis : Redis
  walRunning : Bool
  queues : Nat → List AckTask
  workers : Nat → Option (AckTask × Bool)
  acking : Pid → AckPC
  submits : Nat → SubmitPC V
  accepted : List (SaveItem V)
  deleted : List Target

inductive DurableLabel (V : Type) where
  | flusher (a : Label V)
  | submit (c : Nat) (freezable : V → Bool) (items : List (SaveItem V))
  | submitRemove (c : Nat) (items : List (SaveItem V))
  | hset (c : Nat)
  | zadd (c : Nat)
  | writeError (c : Nat)
  | push (c : Nat) (timedOut : Bool)
  | ack (p : Pid)
  | enqueue (p : Pid)
  | ackHdel (p : Pid) (shard : Nat)
  | ackZrem (p : Pid)
  | ackError (p : Pid)
  | workerTake (i : Nat)
  | workerHdel (i : Nat)
  | workerZrem (i : Nat)
  | workerError (i : Nat)
  | walStop
  | expireSnapshot (shard : Nat)
  | expirePending (shard : Nat)

def freezeSaveItems (freezable : V → Bool) (items : List (SaveItem V)) : List (SaveItem V) :=
  items.map (freezeSaveItem freezable)

def normalizeRemoveItems (items : List (SaveItem V)) : List (SaveItem V) :=
  (items.filter fun item => item.target.collection ≠ "" ∧ item.target.id ≠ 0).map fun item =>
    { item with version := 0, data := [], patch := .none, mode := .full }

def submitTask (remove : Bool) (item : SaveItem V) : Option WriteTask :=
  if remove then deleteTask wal item else writeTask wal item

variable (s : Durable V)

/-- Entries come from `Submit` only, and the flusher waits for its `Ack` calls. -/
def flusherMay : Label V → Bool
  | .push _ => false
  | .ack p outcome => decide (s.acking p = .finished (outcome = .ok))
  | _ => true

def ackingAfter : Label V → Pid → AckPC
  | .ack p _ => Function.update s.acking p .idle
  | _ => s.acking

/-- `Checkpoint.Start` starts the WAL workers as well. -/
def walRunningAfter : Label V → Bool
  | .start => true
  | _ => s.walRunning

namespace Durable

def setSubmit (s : Durable V) (c : Nat) (pc : SubmitPC V) : Durable V :=
  { s with submits := Function.update s.submits c pc }

def setAcking (s : Durable V) (p : Pid) (pc : AckPC) : Durable V :=
  { s with acking := Function.update s.acking p pc }

def setWorker (s : Durable V) (i : Nat) (task : Option (AckTask × Bool)) : Durable V :=
  { s with workers := Function.update s.workers i task }

def accept (s : Durable V) (c : Nat) (remove : Bool) (items : List (SaveItem V)) : Durable V :=
  { s.setSubmit c (.returned true) with
    accepted := if remove then s.accepted else s.accepted ++ items }

end Durable

def ackCall (tasks : List AckTask) : AckPC :=
  if tasks = [] then .finished true
  else if s.walRunning then .enqueue tasks else .direct tasks

def queueCap (wal : WalConfig) : Nat :=
  max 1 (wal.queueCap / wal.workerCount)

def shardTargets (shard : Nat) (todo : List AckTask) : List String :=
  (todo.filter fun task => task.shard = shard).map AckTask.target

def submitStep (c : Nat) (remove : Bool) (items : List (SaveItem V)) : Option (Durable V) :=
  match s.submits c with
  | .idle | .returned _ =>
    if items = [] then some (s.setSubmit c (.returned true))
    else some { s.setSubmit c (.write remove items items) with
      deleted := if remove then s.deleted ++ items.map SaveItem.target else s.deleted }
  | _ => none

/-- A journal that is closed, or full until the timeout, refuses the items, and the call still
returns true. -/
def pushStep [DecidableEq V] (cfg : Config V) (s : Durable V) (c : Nat) (timedOut : Bool) :
    Option (Durable V) :=
  match s.submits c with
  | .write remove items [] =>
    if s.flusher.journal.closed ∨
        timedOut ∧ s.flusher.journal.cap ≤ s.flusher.journal.entries.length then
      some { s.accept c remove items with
        flusher := { s.flusher with
          dirty := if remove then s.flusher.dirty
            else rollbackPersistItems s.flusher.dirty items } }
    else
      (next cfg s.flusher (.push items)).map fun f =>
        { s.accept c remove items with flusher := f }
  | _ => none

def enqueueStep (s : Durable V) (p : Pid) : Option (Durable V) :=
  match s.acking p with
  | .enqueue (task :: todo) =>
    let i := redisSnapshotWALWorker task.target wal.workerCount
    if s.walRunning ∧ (s.queues i).length < queueCap wal then
      some { s.setAcking p (if todo = [] then .finished true else .enqueue todo) with
        queues := Function.update s.queues i (s.queues i ++ [task]) }
    else some (s.setAcking p (.finished false))
  | _ => none

def durableStep [DecidableEq V] (cfg : Config V) (wal : WalConfig) (s : Durable V) :
    DurableLabel V → Option (Durable V)
  | .flusher a =>
    if flusherMay s a then
      (next cfg s.flusher a).map fun f =>
        { s with
          flusher := f
          acking := ackingAfter s a
          walRunning := walRunningAfter s a }
    else none
  | .submit c freezable items => submitStep s c false (freezeSaveItems freezable items)
  | .submitRemove c items => submitStep s c true (normalizeRemoveItems items)
  | .hset c =>
    match s.submits c with
    | .write remove items (item :: todo) =>
      match submitTask wal remove item with
      | none => some (s.setSubmit c (.write remove items todo))
      | some task =>
        some { s.setSubmit c (.added remove items item todo) with
          redis := s.redis.hset task.shard task.target task.payload }
    | _ => none
  | .zadd c =>
    match s.submits c with
    | .added remove items item todo =>
      (submitTask wal remove item).map fun task =>
        { s.setSubmit c (.write remove items todo) with
          redis := s.redis.zadd task.shard task.target }
    | _ => none
  | .writeError c =>
    match s.submits c with
    | .write _ _ (_ :: _) | .added .. => some (s.setSubmit c (.returned false))
    | _ => none
  | .push c timedOut => pushStep cfg s c timedOut
  | .ack p =>
    match s.acking p with
    | .idle =>
      (ackTasks wal (s.flusher.procs p)).map fun tasks =>
        s.setAcking p (ackCall s tasks)
    | _ => none
  | .enqueue p => enqueueStep wal s p
  | .ackHdel p shard =>
    match s.acking p with
    | .direct todo =>
      if shardTargets shard todo = [] then none
      else some { s.setAcking p (.directHalf shard todo) with
        redis := s.redis.hdel shard (shardTargets shard todo) }
    | _ => none
  | .ackZrem p =>
    match s.acking p with
    | .directHalf shard todo =>
      let rest := todo.filter fun task => task.shard ≠ shard
      some { s.setAcking p (if rest = [] then .finished true else .direct rest) with
        redis := s.redis.zrem shard (shardTargets shard todo) }
    | _ => none
  | .ackError p =>
    match s.acking p with
    | .direct _ | .directHalf _ _ => some (s.setAcking p (.finished false))
    | _ => none
  | .workerTake i =>
    match s.workers i, s.queues i with
    | none, task :: rest =>
      some { s.setWorker i (some (task, false)) with
        queues := Function.update s.queues i rest }
    | _, _ => none
  | .workerHdel i =>
    match s.workers i with
    | some (task, false) =>
      some { s.setWorker i (some (task, true)) with
        redis := s.redis.hdel task.shard [task.target] }
    | _ => none
  | .workerZrem i =>
    match s.workers i with
    | some (task, true) =>
      some { s.setWorker i none with redis := s.redis.zrem task.shard [task.target] }
    | _ => none
  | .workerError i =>
    match s.workers i with
    | some _ => some (s.setWorker i none)
    | none => none
  | .walStop => if s.walRunning then some { s with walRunning := false } else none
  | .expireSnapshot shard =>
    if wal.ttl then some { s with redis := s.redis.apply (.expireSnapshot shard) } else none
  | .expirePending shard =>
    if wal.ttl then some { s with redis := s.redis.apply (.expirePending shard) } else none

/-- A checkpoint before `Start`, over any backend and any WAL content. -/
def Unstarted (cfg : Config V) (wal : WalConfig) (s : Durable V) : Prop :=
  ∃ backend redis, Built wal redis ∧ s =
    { flusher := initial cfg backend
      redis := redis
      walRunning := false
      queues := fun _ => []
      workers := fun _ => none
      acking := fun _ => .idle
      submits := fun _ => .idle
      accepted := []
      deleted := [] }

end CubeCore.DurableCheckpoint
