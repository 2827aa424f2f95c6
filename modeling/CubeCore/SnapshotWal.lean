import CubeCore.FlusherSystem
import Mathlib.Data.Finset.SDiff

namespace CubeCore.SnapshotWal

open SaveItems BatchDedup Nat Function

variable {V : Type}

inductive Operation where
  | save
  | delete
deriving DecidableEq, Repr

/-- `CreatedAt` only gives the order of the scan, which the steps of Replay leave open. -/
structure Payload where
  operation : Operation
  target : Target
  version : Nat
  fence : Nat
  ownerSid : Int
  shared : Bool
  mask : UInt64
  mode : SaveMode
  data : Bytes
deriving DecidableEq

/-- Replay writes a record as a full snapshot, whatever its mode was. -/
def Payload.saveOp (p : Payload) : SaveOp V where
  target := p.target
  version := p.version
  fence := p.fence
  ownerSid := p.ownerSid
  shared := p.shared
  mask := p.mask
  mode := .full
  data := p.data
  patch := .none

def Payload.removeKey (p : Payload) : RemoveKey where
  db := p.target.db
  dbScope := p.target.dbScope
  coll := p.target.collection
  fence := p.fence
  ownerSid := p.ownerSid
  shared := p.shared

/-- The checks of `decodeRedisSnapshotWALPayload`. -/
def Payload.valid (p : Payload) : Bool :=
  p.target.collection ≠ "" && p.target.id ≠ 0 &&
    (p.operation = .delete || !p.data.isEmpty)

def redisSnapshotWALTarget (t : Target) : String :=
  if t.dbScope = .server then
    t.db ++ "|server|" ++ t.collection ++ "|" ++ toString t.id
  else if t.db ≠ "" then t.db ++ "|" ++ t.collection ++ "|" ++ toString t.id
  else t.collection ++ "|" ++ toString t.id

variable (target : String)

/-- FNV-1a over the bytes of the key. -/
def redisSnapshotWALHash : UInt32 :=
  target.toByteArray.data.toList.foldl (fun h b => (h ^^^ b.toUInt32) * 16777619) 2166136261

def redisSnapshotWALShard (shards : Nat) : Nat :=
  if shards ≤ 1 then 0 else (redisSnapshotWALHash target).toNat % (shards % 2 ^ 32)

def redisSnapshotWALWorker (workers : Nat) : Nat :=
  if workers ≤ 1 then 0 else (redisSnapshotWALHash target).toNat % (workers % 2 ^ 32)

theorem redisSnapshotWALTarget_ne_empty (t : Target) : redisSnapshotWALTarget t ≠ "" := by
  intro h
  have hlen := congrArg String.length h
  simp only [redisSnapshotWALTarget] at hlen
  split at hlen
  · simp at hlen
  · split at hlen <;> simp at hlen

theorem redisSnapshotWALShard_lt (h : 0 < shards) :
    redisSnapshotWALShard target shards < shards := by
  simp only [redisSnapshotWALShard]
  split
  · exact h
  rcases Nat.eq_zero_or_pos (shards % 2 ^ 32) with hzero | hpos
  · rw [hzero]
    have hhash := (redisSnapshotWALHash target).toNat_lt
    have hdvd := le_of_dvd h (dvd_of_mod_eq_zero hzero)
    omega
  · have hlt := mod_lt (redisSnapshotWALHash target).toNat hpos
    have hle := mod_le shards (2 ^ 32)
    omega

/-- The configuration after `normalize`. -/
structure WalConfig where
  shards : Nat
  workerCount : Nat
  queueCap : Nat
  ttl : Bool
  replayBatchSize : Nat
  shards_pos : 0 < shards
  batch_pos : 0 < replayBatchSize

/-- A write task: the record and where it goes. -/
structure WriteTask where
  target : String
  shard : Nat
  payload : Payload
deriving DecidableEq

variable (cfg : WalConfig)

def taskOf (payload : Payload) : WriteTask where
  target := redisSnapshotWALTarget payload.target
  shard := redisSnapshotWALShard (redisSnapshotWALTarget payload.target) cfg.shards
  payload := payload

/-- A patch is recorded by its full fallback where it has one. -/
def recordData (item : SaveItem V) : Bytes :=
  if item.mode = .patch ∧ item.patch.fullData ≠ [] then item.patch.fullData else item.data

def writeTask (item : SaveItem V) : Option WriteTask :=
  if item.target.collection = "" ∨ item.target.id = 0 ∨ item.isRemove then none
  else if recordData item = [] then none
  else some (taskOf cfg
    { operation := .save
      target := item.target
      version := item.version
      fence := item.fence
      ownerSid := item.ownerSid
      shared := item.shared
      mask := item.mask
      mode := item.mode
      data := recordData item })

def deleteTask (item : SaveItem V) : Option WriteTask :=
  if item.target.collection = "" ∨ item.target.id = 0 then none
  else some (taskOf cfg
    { operation := .delete
      target := item.target
      version := 0
      fence := item.fence
      ownerSid := item.ownerSid
      shared := item.shared
      mask := 0
      mode := .full
      data := [] })

/-- For each shard a hash of records and a sorted set of pending members. -/
structure Redis where
  snapshot : Nat → String → Option Payload
  pending : Nat → Finset String

namespace Redis

def empty : Redis := ⟨fun _ _ => none, fun _ => ∅⟩

def hset (r : Redis) (shard : Nat) (key : String) (payload : Payload) : Redis :=
  { r with
    snapshot := update r.snapshot shard
      (update (r.snapshot shard) key (some payload)) }

def zadd (r : Redis) (shard : Nat) (key : String) : Redis :=
  { r with pending := update r.pending shard (insert key (r.pending shard)) }

def hdel (r : Redis) (shard : Nat) (keys : List String) : Redis :=
  { r with
    snapshot := update r.snapshot shard
      fun key => if key ∈ keys then none else r.snapshot shard key }

def zrem (r : Redis) (shard : Nat) (keys : List String) : Redis :=
  { r with pending := update r.pending shard (r.pending shard \ keys.toFinset) }

end Redis

/-- A Redis command of `writeSnapshot` or `ackTasks`, or the expiry of a key. -/
inductive WalCommand where
  | hset (task : WriteTask)
  | zadd (task : WriteTask)
  | hdel (shard : Nat) (keys : List String)
  | zrem (shard : Nat) (keys : List String)
  | expireSnapshot (shard : Nat)
  | expirePending (shard : Nat)

def Redis.apply (r : Redis) : WalCommand → Redis
  | .hset task => r.hset task.shard task.target task.payload
  | .zadd task => r.zadd task.shard task.target
  | .hdel shard keys => r.hdel shard keys
  | .zrem shard keys => r.zrem shard keys
  | .expireSnapshot shard => { r with snapshot := update r.snapshot shard fun _ => none }
  | .expirePending shard => { r with pending := update r.pending shard ∅ }

/-- The commands that the tasks of valid items give. -/
def WalCommand.Issued : WalCommand → Prop
  | .hset task | .zadd task => ∃ payload : Payload, payload.valid = true ∧ task = taskOf cfg payload
  | _ => True

/-- Every record is valid and stands under its key and shard, and every member is in its shard. -/
structure RecordsOk (cfg : WalConfig) (r : Redis) : Prop where
  record : ∀ shard key payload, r.snapshot shard key = some payload →
    payload.valid = true ∧ redisSnapshotWALTarget payload.target = key ∧
      redisSnapshotWALShard key cfg.shards = shard
  member : ∀ shard, ∀ key ∈ r.pending shard,
    key ≠ "" ∧ redisSnapshotWALShard key cfg.shards = shard

theorem recordsOk_empty : RecordsOk cfg .empty :=
  ⟨by simp [Redis.empty], by simp [Redis.empty]⟩

theorem snapshot_hset (r : Redis) (shard : Nat) (key : String) (payload : Payload)
    (shard' : Nat) (key' : String) :
    (r.hset shard key payload).snapshot shard' key' =
      if shard' = shard ∧ key' = key then some payload else r.snapshot shard' key' := by
  simp only [Redis.hset]
  rcases eq_or_ne shard' shard with rfl | hshard
  · rcases eq_or_ne key' key with rfl | hkey
    · simp
    · simp [hkey]
  · simp [hshard]

theorem snapshot_hdel (r : Redis) (shard : Nat) (keys : List String)
    (shard' : Nat) (key' : String) :
    (r.hdel shard keys).snapshot shard' key' =
      if shard' = shard ∧ key' ∈ keys then none else r.snapshot shard' key' := by
  simp only [Redis.hdel]
  rcases eq_or_ne shard' shard with rfl | hshard
  · simp
  · simp [hshard]

variable {r : Redis} {shard : Nat}

theorem mem_pending_zadd :
    key' ∈ (r.zadd shard key).pending shard' ↔
      (shard' = shard ∧ key' = key) ∨ key' ∈ r.pending shard' := by
  simp only [Redis.zadd]
  rcases eq_or_ne shard' shard with rfl | hshard
  · simp
  · simp [hshard]

theorem mem_pending_zrem :
    key' ∈ (r.zrem shard keys).pending shard' ↔
      key' ∈ r.pending shard' ∧ ¬ (shard' = shard ∧ key' ∈ keys) := by
  simp only [Redis.zrem]
  rcases eq_or_ne shard' shard with rfl | hshard
  · simp
  · simp [hshard]

variable {cfg : WalConfig}

theorem recordsOk_apply (h : RecordsOk cfg r) (hc : c.Issued cfg) :
    RecordsOk cfg (r.apply c) := by
  cases c with
  | hset =>
    obtain ⟨payload, hvalid, rfl⟩ := hc
    refine ⟨?_, h.member⟩
    intro shard key p hp
    rw [Redis.apply, snapshot_hset] at hp
    split_ifs at hp with hat
    · obtain rfl : (taskOf cfg payload).payload = p := Option.some.inj hp
      obtain ⟨rfl, rfl⟩ := hat
      exact ⟨hvalid, rfl, rfl⟩
    · exact h.record shard key p hp
  | zadd =>
    obtain ⟨payload, -, rfl⟩ := hc
    refine ⟨h.record, ?_⟩
    intro shard key hkey
    rcases mem_pending_zadd.mp hkey with ⟨rfl, rfl⟩ | hold
    · exact ⟨redisSnapshotWALTarget_ne_empty _, rfl⟩
    · exact h.member shard key hold
  | hdel =>
    refine ⟨?_, h.member⟩
    intro shard' key p hp
    rw [Redis.apply, snapshot_hdel] at hp
    split_ifs at hp
    exact h.record shard' key p hp
  | zrem =>
    refine ⟨h.record, ?_⟩
    intro shard' key hkey
    exact h.member shard' key (mem_pending_zrem.mp hkey).1
  | expireSnapshot shard =>
    refine ⟨?_, h.member⟩
    intro shard' key p hp
    simp only [Redis.apply] at hp
    rcases eq_or_ne shard' shard with rfl | hne
    · simp at hp
    · rw [update_of_ne hne] at hp
      exact h.record shard' key p hp
  | expirePending shard =>
    refine ⟨h.record, ?_⟩
    intro shard' key hkey
    simp only [Redis.apply] at hkey
    rcases eq_or_ne shard' shard with rfl | hne
    · simp at hkey
    · rw [update_of_ne hne] at hkey
      exact h.member shard' key hkey

/-- What Redis can hold after any commands of the WAL, interrupted ones included. -/
inductive Built (cfg : WalConfig) : Redis → Prop
  | empty : Built cfg .empty
  | command {r : Redis} {c : WalCommand} : Built cfg r → c.Issued cfg → Built cfg (r.apply c)

theorem Built.recordsOk (h : Built cfg r) : RecordsOk cfg r := by
  induction h with
  | empty => exact recordsOk_empty cfg
  | command _ hc ih => exact recordsOk_apply ih hc

theorem pending_of_le_shard (h : RecordsOk cfg r) (hshard : cfg.shards ≤ shard) :
    r.pending shard = ∅ := by
  rw [Finset.eq_empty_iff_forall_notMem]
  intro key hkey
  have hlt := redisSnapshotWALShard_lt key cfg.shards_pos
  rw [(h.member shard key hkey).2] at hlt
  omega

theorem writeTask_eq_some (h : writeTask cfg item = some task) :
    ∃ payload, payload.valid = true ∧ task = taskOf cfg payload ∧
      payload.operation = .save ∧ payload.target = item.target ∧
      payload.version = item.version := by
  simp only [writeTask] at h
  split_ifs at h with hitem hdata
  refine ⟨_, ?_, (Option.some.inj h).symm, rfl, rfl, rfl⟩
  simp only [not_or] at hitem
  simp [Payload.valid, hitem.1, hitem.2.1, hdata]

theorem deleteTask_eq_some (h : deleteTask cfg item = some task) :
    ∃ payload, payload.valid = true ∧ task = taskOf cfg payload ∧
      payload.operation = .delete ∧ payload.target = item.target := by
  simp only [deleteTask] at h
  split_ifs at h with hitem
  refine ⟨_, ?_, (Option.some.inj h).symm, rfl, rfl⟩
  simp only [not_or] at hitem
  simp [Payload.valid, hitem.1, hitem.2]

end CubeCore.SnapshotWal
