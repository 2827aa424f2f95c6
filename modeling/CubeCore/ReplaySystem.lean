import CubeCore.SnapshotWal
import Mathlib.Data.Finset.Card

namespace CubeCore.ReplaySystem

open SaveItems BatchDedup VersionStore FlusherSystem SnapshotWal

variable {V : Type}

def redisSnapshotWALPayloadTarget (p : Payload) : String :=
  redisSnapshotWALTarget p.target

/-- `ack` is an `ackTasks` call, `half` after its HDel, with the saves and delete groups left. -/
inductive ReplayPC where
  | scan (shard : Nat)
  | load (shard : Nat) (members : List String)
  | ack (shard : Nat) (keys : List String) (half : Bool) (saves : List Payload)
      (groups : List (RemoveKey × List Payload))
  | batch (shard : Nat) (saves : List Payload) (groups : List (RemoveKey × List Payload))
  | done
  | failed
deriving DecidableEq

structure ReplayState (V : Type) where
  pc : ReplayPC
  redis : Redis
  backend : Backend V

/-- `bulkSave` names the items rejected, `bulkRemove` the next group, `error` is of any call. -/
inductive ReplayLabel where
  | scan (members : List String)
  | load
  | hdel
  | zrem
  | bulkSave (fails : List Bool)
  | bulkRemove (i : Nat)
  | error

def deleteGroups (payloads : List Payload) : List (RemoveKey × List Payload) :=
  let deletes := payloads.filter fun p => p.operation = .delete
  (deletes.map Payload.removeKey).dedup.map fun rk =>
    (rk, deletes.filter fun p => p.removeKey = rk)

def savePayloads (payloads : List Payload) : List Payload :=
  payloads.filter fun p => p.operation = .save

/-- The records of the scanned members and the members without one. -/
def loadReplayPayloads (r : Redis) (shard : Nat) (members : List String) :
    Option (List Payload × List String) :=
  let payloads := members.filterMap (r.snapshot shard)
  if payloads.all Payload.valid then
    some (payloads, members.filter fun m => (r.snapshot shard m).isNone)
  else none

def resume (shard : Nat) (saves : List Payload) (groups : List (RemoveKey × List Payload)) :
    ReplayPC :=
  if saves = [] ∧ groups = [] then .scan shard else .batch shard saves groups

/-- `ackTasks` skips empty targets and does nothing when none is left. -/
def startAck (shard : Nat) (keys : List String) (saves : List Payload)
    (groups : List (RemoveKey × List Payload)) : ReplayPC :=
  let targets := keys.filter (· ≠ "")
  if targets = [] then resume shard saves groups
  else .ack shard targets false saves groups

def nextShard (cfg : WalConfig) (shard : Nat) : ReplayPC :=
  if shard + 1 < cfg.shards then .scan (shard + 1) else .done

def groupTargets (group : RemoveKey × List Payload) : List Target :=
  group.2.map fun p => group.1.target p.target.id

def replayStep (cfg : WalConfig) (decode : Bytes → Doc V) (s : ReplayState V) :
    ReplayLabel → Option (ReplayState V)
  | .scan members =>
    match s.pc with
    | .scan shard =>
      if members.Nodup ∧ (∀ m ∈ members, m ∈ s.redis.pending shard) ∧
          members.length = min cfg.replayBatchSize (s.redis.pending shard).card then
        some { s with
          pc := if members = [] then nextShard cfg shard else .load shard members }
      else none
    | _ => none
  | .load =>
    match s.pc with
    | .load shard members =>
      match loadReplayPayloads s.redis shard members with
      | none => some { s with pc := .failed }
      | some (payloads, stale) =>
        some { s with
          pc := startAck shard stale (savePayloads payloads) (deleteGroups payloads) }
    | _ => none
  | .hdel =>
    match s.pc with
    | .ack shard keys false saves groups =>
      some { s with
        pc := .ack shard keys true saves groups
        redis := s.redis.hdel shard keys }
    | _ => none
  | .zrem =>
    match s.pc with
    | .ack shard keys true saves groups =>
      some { s with
        pc := resume shard saves groups
        redis := s.redis.zrem shard keys }
    | _ => none
  | .bulkSave fails =>
    match s.pc with
    | .batch shard (p :: saves) groups =>
      let reply := FlusherSystem.bulkSave decode s.backend
        ((p :: saves).map Payload.saveOp) fails
      some { s with
        pc := if .failed ∈ reply.2 then .failed
          else startAck shard ((p :: saves).map redisSnapshotWALPayloadTarget) [] groups
        backend := reply.1 }
    | _ => none
  | .bulkRemove i =>
    match s.pc with
    | .batch shard [] groups =>
      (groups[i]?).map fun group =>
        { s with
          pc := startAck shard (group.2.map redisSnapshotWALPayloadTarget) []
            (groups.eraseIdx i)
          backend := remove s.backend (groupTargets group) }
    | _ => none
  | .error =>
    if s.pc = .done ∨ s.pc = .failed then none else some { s with pc := .failed }

def begin (r : Redis) (b : Backend V) : ReplayState V := ⟨.scan 0, r, b⟩

/-- A step in which no call reports an error. -/
def CleanStep (_ : ReplayState V) : ReplayLabel → Prop
  | .bulkSave fails => fails = []
  | .error => False
  | _ => True

section Resolve

variable (cfg : WalConfig) (decode : Bytes → Doc V)

/-- The record of a target that `Replay` is still to apply. -/
def pendingRecord (r : Redis) (t : Target) : Option Payload :=
  let key := redisSnapshotWALTarget t
  let shard := redisSnapshotWALShard key cfg.shards
  if key ∈ r.pending shard then (r.snapshot shard key).filter fun p => p.target = t else none

def outcome (p : Payload) (b : Backend V) : Option (Stored (Doc V)) :=
  match p.operation with
  | .save => saveOne decode b p.saveOp p.target
  | .delete => none

/-- What the backend comes to when every pending record is applied. -/
def resolve (r : Redis) (b : Backend V) : Backend V := fun t =>
  match pendingRecord cfg r t with
  | some p => outcome decode p b
  | none => b t

def Settled (p : Payload) (b : Backend V) : Prop :=
  match p.operation with
  | .save => AtLeast b p.target p.version
  | .delete => b p.target = none

variable {cfg decode}

variable {p : Payload} {b : Backend V}

theorem outcome_of_settled (h : Settled p b) : outcome decode p b = b p.target := by
  unfold outcome
  unfold Settled at h
  split at h
  · exact congrFun (save_eq_of_atLeast h _) p.target
  · exact h.symm

variable {b' : Backend V}

theorem settled_of_eq_outcome (h : b' p.target = outcome decode p b) : Settled p b' := by
  unfold outcome at h
  unfold Settled
  split at h
  · obtain ⟨d, hd, hv⟩ := atLeast_save_self b p.target p.version (writeDoc decode p.saveOp)
    exact ⟨d, h.trans hd, hv⟩
  · exact h

theorem outcome_congr (h : b' p.target = b p.target) :
    outcome decode p b' = outcome decode p b := by
  unfold outcome
  split
  · exact saveOne_congr decode h
  · rfl

variable {r : Redis}

theorem pendingRecord_eq_some {t : Target} (h : pendingRecord cfg r t = some p) :
    p.target = t ∧ redisSnapshotWALTarget t ∈
        r.pending (redisSnapshotWALShard (redisSnapshotWALTarget t) cfg.shards) ∧
      r.snapshot (redisSnapshotWALShard (redisSnapshotWALTarget t) cfg.shards)
        (redisSnapshotWALTarget t) = some p := by
  simp only [pendingRecord] at h
  split_ifs at h with hmem
  obtain ⟨hrecord, htarget⟩ := Option.filter_eq_some_iff.mp h
  exact ⟨of_decide_eq_true htarget, hmem, hrecord⟩

variable {shard : Nat}

theorem pendingRecord_of_record {key : String} (hok : RecordsOk cfg r)
    (hrecord : r.snapshot shard key = some p) (hpending : key ∈ r.pending shard) :
    pendingRecord cfg r p.target = some p := by
  obtain ⟨-, rfl, rfl⟩ := hok.record shard key p hrecord
  simp [pendingRecord, hpending, hrecord, Option.filter]

theorem resolve_of_applied (h : ∀ t, b' t = b t ∨
      ∃ p, pendingRecord cfg r t = some p ∧ b' t = outcome decode p b) :
    resolve cfg decode r b' = resolve cfg decode r b := by
  funext t
  simp only [resolve]
  rcases h t with hsame | ⟨p, hp, hnew⟩
  · split
    · rename_i p hp
      obtain ⟨rfl, -⟩ := pendingRecord_eq_some hp
      exact outcome_congr hsame
    · exact hsame
  · rw [hp]
    obtain ⟨rfl, -⟩ := pendingRecord_eq_some hp
    exact (outcome_of_settled (settled_of_eq_outcome hnew)).trans hnew

theorem resolve_of_pendingRecord (h : ∀ t, pendingRecord cfg r' t = pendingRecord cfg r t ∨
      pendingRecord cfg r' t = none ∧ ∀ p, pendingRecord cfg r t = some p → Settled p b) :
    resolve cfg decode r' b = resolve cfg decode r b := by
  funext t
  simp only [resolve]
  rcases h t with hsame | ⟨hnone, hsettled⟩
  · rw [hsame]
  simp only [hnone]
  cases hp : pendingRecord cfg r t with
  | none => rfl
  | some p =>
    obtain ⟨rfl, -⟩ := pendingRecord_eq_some hp
    exact (outcome_of_settled (hsettled p hp)).symm

variable {keys : List String}

theorem resolve_hdel (h : ∀ key ∈ keys, ∀ p, r.snapshot shard key = some p → Settled p b) :
    resolve cfg decode (r.hdel shard keys) b = resolve cfg decode r b := by
  apply resolve_of_pendingRecord
  intro t
  simp only [pendingRecord, snapshot_hdel]
  by_cases hat : redisSnapshotWALShard (redisSnapshotWALTarget t) cfg.shards = shard ∧
      redisSnapshotWALTarget t ∈ keys
  · refine .inr ⟨by simp [hat.1, hat.2], ?_⟩
    intro p hp
    obtain ⟨-, -, hrecord⟩ := pendingRecord_eq_some hp
    rw [hat.1] at hrecord
    exact h _ hat.2 p hrecord
  · left
    rw [if_neg hat]
    rfl

theorem resolve_zrem (h : ∀ key ∈ keys, r.snapshot shard key = none) :
    resolve cfg decode (r.zrem shard keys) b = resolve cfg decode r b := by
  apply resolve_of_pendingRecord
  intro t
  simp only [pendingRecord, mem_pending_zrem]
  by_cases hat : redisSnapshotWALShard (redisSnapshotWALTarget t) cfg.shards = shard ∧
      redisSnapshotWALTarget t ∈ keys
  · refine .inr ⟨by simp [hat.1, hat.2], ?_⟩
    intro p hp
    obtain ⟨-, -, hrecord⟩ := pendingRecord_eq_some hp
    rw [hat.1, h _ hat.2] at hrecord
    simp at hrecord
  · left
    simp only [hat, not_false_eq_true, and_true]
    rfl

end Resolve

end CubeCore.ReplaySystem
