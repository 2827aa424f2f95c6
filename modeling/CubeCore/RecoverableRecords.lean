import CubeCore.DurableCheckpoint
import CubeCore.OperationOrigin
import CubeCore.WalReplay

namespace CubeCore.RecoverableRecords

open SaveItems BatchDedup VersionStore FlusherSystem FlusherMoves BatchOwnership Function List
open OperationOrigin SnapshotWal ReplaySystem

variable {V : Type}

section FlusherFacts

variable {cfg : Config V} {s s' : State V} {a : Label V}

/-- The items of the `Ack` call a goroutine stands before. -/
def ackList : PC V → List (SaveItem V)
  | .ackSaves _ _ _ acks => acks
  | _ => []

variable (batch : Batch V)

@[simp] theorem ackList_continueRemoves (todo : List (RemoveKey × List RemoveId)) :
    ackList (continueRemoves batch todo) = [] := by
  simp only [continueRemoves]
  split <;> rfl

@[simp] theorem ackList_continueSaves (todo : List (SaveItem V)) :
    ackList (continueSaves batch todo) = [] := by
  cases todo with
  | nil => exact ackList_continueRemoves batch _
  | cons => rfl

@[simp] theorem ackList_afterSaves (todo : List (SaveItem V)) (failed : Bool) :
    ackList (afterSaves batch todo failed) = [] := by
  cases failed with
  | true => rfl
  | false => exact ackList_continueSaves batch todo

theorem ackList_of_not_busy (h : busy pc = false) : ackList pc = [] := by
  cases pc <;> first | rfl | simp [busy, holdsBatch] at h

theorem mem_acked_flushChunk (hw : w ∈ acked (flushChunk cfg b chunk fails).2) :
    AtLeast (flushChunk cfg b chunk fails).1 w.target w.version := by
  simp only [acked, mem_map, mem_filter, decide_eq_true_eq] at hw
  obtain ⟨⟨w', result⟩, ⟨hzip, hresult⟩, rfl⟩ := hw
  have hop : (w'.toOp, result) ∈ (chunk.map SaveItem.toOp).zip
      (bulkSave cfg.decode b (chunk.map SaveItem.toOp) fails).2 := by
    rw [zip_map_left]
    exact mem_map.mpr ⟨(w', result), hzip, rfl⟩
  exact atLeast_of_bulkSave cfg.decode b hop hresult

theorem ackList_move (hmove : Move cfg s a s') (p : Pid) (hw : w ∈ ackList (s'.procs p)) :
    w ∈ ackList (s.procs p) ∨ AtLeast s'.backend w.target w.version := by
  have update : ∀ {q : Pid} {pc : PC V}, ackList pc = [] →
      w ∈ ackList (update s.procs q pc p) → w ∈ ackList (s.procs p) := by
    intro q pc hpc hmem
    rcases eq_or_ne p q with rfl | hne
    · rw [update_self, hpc] at hmem
      simp at hmem
    · rwa [update_of_ne hne] at hmem
  cases hmove with
  | still _ hprocs => exact .inl (hprocs ▸ hw)
  | quiet _ _ _ hprocs _ hbusy =>
    rw [hprocs] at hw
    exact .inl (update (ackList_of_not_busy hbusy) hw)
  | idleStop | push => exact .inl hw
  | wait | receive | dropSaves | dropRemoves
  | requeue | finish | drain => exact .inl (update rfl hw)
  | notify q failed => exact .inl (update (ackList_of_not_busy (afterBatch_idle q failed).1) hw)
  | take => exact .inl (update (ackList_continueSaves _ _) hw)
  | save q batch todo fails dirty reply pc _ hreply hnew =>
    rcases hnew with rfl | rfl
    · exact .inl (update (ackList_afterSaves _ _ _) hw)
    rcases eq_or_ne p q with rfl | hne
    · right
      simp only [State.setPc, update_self, ackList] at hw
      subst hreply
      exact mem_acked_flushChunk hw
    · left
      simpa only [State.setPc, update_of_ne hne] using hw
  | ackSaves => exact .inl (update (ackList_afterSaves _ _ _) hw)
  | remove q _ _ _ _ pc _ _ hnew | ackRemoves q _ _ _ _ pc _ hnew =>
    rcases hnew with rfl | rfl
    · exact .inl (update (ackList_continueRemoves _ _) hw)
    · exact .inl (update rfl hw)

/-- Removes are admitted for documents of `deleted` only. -/
def removesFrom (deleted : List Target) : Bool → Target → Prop :=
  fun isRemove t => isRemove = true → t ∈ deleted

theorem group_targets_deleted (h : Origin (removesFrom deleted) s) (hin : ∀ p, InBatch (s.procs p))
    {batch : Batch V} (hr : r ∈ group.2)
    (hpc : (∃ (todo : List (RemoveKey × List RemoveId)) (i : Nat),
      s.procs p = .removing batch todo ∧ todo[i]? = some group) ∨
      ∃ todo, s.procs p = .ackRemoves batch group todo) :
    group.1.target r.id ∈ deleted := by
  have howned := h.owned p
  have hinp := hin p
  have hgroup : group ∈ batch.removes ∧ ownedOps (s.procs p) = removeOps batch.removes := by
    rcases hpc with ⟨todo, i, hpc, hi⟩ | ⟨todo, hpc⟩
    · rw [hpc] at hinp ⊢
      exact ⟨hinp (mem_of_getElem? hi), rfl⟩
    · rw [hpc] at hinp ⊢
      exact ⟨hinp.1, rfl⟩
  rw [hgroup.2] at howned
  exact howned (removeItem group.1 r) (mem_removeOps.mpr ⟨group, hgroup.1, r, hr, rfl⟩) rfl

theorem atLeast_move (hmove : Move cfg s a s') (horigin : Origin (removesFrom deleted) s)
    (hin : ∀ p, InBatch (s.procs p)) (ht : t ∉ deleted) (h : AtLeast s.backend t v) :
    AtLeast s'.backend t v := by
  cases hmove with
  | still hwork => rwa [hwork.backend]
  | quiet _ _ hwork => rwa [hwork.backend]
  | save p batch todo fails dirty reply pc _ hreply =>
    subst hreply
    exact atLeast_bulkSave cfg.decode h _ _
  | dropSaves p batch todo outcome dirty backend _ hbackend =>
    rcases hbackend with ⟨-, rfl⟩ | ⟨fails, -, rfl⟩
    · exact h
    · exact atLeast_bulkSave cfg.decode h _ _
  | remove _ _ todo i _ _ hpc hi =>
    obtain ⟨d, hd, hv⟩ := h
    refine ⟨d, (remove_of_notMem s.backend ?_).trans hd, hv⟩
    intro hmem
    obtain ⟨r, hr, rfl⟩ := mem_map.mp hmem
    exact ht (group_targets_deleted horigin hin hr (.inl ⟨todo, i, hpc, hi⟩))
  | idleStop | wait | receive | notify | push | take
  | ackSaves | ackRemoves | dropRemoves
  | requeue | finish | drain => exact h

end FlusherFacts

section Recovery

variable {wal : WalConfig} {r : Redis} {b : Backend V} {t : Target} {v : Nat}

def recordAt (wal : WalConfig) (r : Redis) (t : Target) : Option Payload :=
  r.snapshot (redisSnapshotWALShard (redisSnapshotWALTarget t) wal.shards)
    (redisSnapshotWALTarget t)

def PendingAt (wal : WalConfig) (r : Redis) (t : Target) : Prop :=
  redisSnapshotWALTarget t ∈
    r.pending (redisSnapshotWALShard (redisSnapshotWALTarget t) wal.shards)

def HasRecord (wal : WalConfig) (r : Redis) (t : Target) (v : Nat) : Prop :=
  ∃ p, recordAt wal r t = some p ∧ p.target = t ∧ p.operation = .save ∧ v ≤ p.version

/-- The backend has version `v` of `t`, or a record, which is pending once it is complete. -/
structure Recoverable (wal : WalConfig) (r : Redis) (b : Backend V) (t : Target) (v : Nat)
    (complete : Bool) : Prop where
  no_tombstone : ∀ p, recordAt wal r t = some p → p.target = t → p.operation = .save
  kept : AtLeast b t v ∨ HasRecord wal r t v ∧ (complete = true → PendingAt wal r t)

theorem recordAt_hset (wal : WalConfig) (r : Redis) (q : Payload) (t : Target) :
    recordAt wal (r.hset (taskOf wal q).shard (taskOf wal q).target q) t =
      if redisSnapshotWALTarget t = redisSnapshotWALTarget q.target then some q
      else recordAt wal r t := by
  simp only [recordAt, taskOf, snapshot_hset]
  by_cases hkey : redisSnapshotWALTarget t = redisSnapshotWALTarget q.target
  · simp [hkey]
  · simp [hkey]

theorem Recoverable.hset (h : Recoverable wal r b t v complete) (q : Payload)
    (hover : ∀ p, recordAt wal r q.target = some p →
      p.target = q.target ∧ (q.operation = .save → p.version ≤ q.version))
    (hdelete : q.operation = .delete → q.target ≠ t) :
    Recoverable wal (r.hset (taskOf wal q).shard (taskOf wal q).target q) b t v complete := by
  have hsave : q.target = t → q.operation = .save := by
    intro htarget
    cases hop : q.operation with
    | save => rfl
    | delete => exact absurd htarget (hdelete hop)
  constructor
  · intro p hp htarget
    rw [recordAt_hset] at hp
    split at hp
    · cases hp
      exact hsave htarget
    · exact h.no_tombstone p hp htarget
  rcases h.kept with hstored | ⟨⟨p, hp, htarget, hop, hv⟩, hpending⟩
  · exact .inl hstored
  refine .inr ⟨?_, hpending⟩
  by_cases hkey : redisSnapshotWALTarget t = redisSnapshotWALTarget q.target
  · have hat : recordAt wal r q.target = some p := by
      rw [← hp]
      simp only [recordAt, hkey]
    obtain ⟨hsame, hversion⟩ := hover p hat
    have hq : q.target = t := hsame.symm.trans htarget
    exact ⟨q, by rw [recordAt_hset, if_pos hkey], hq, hsave hq,
      Nat.le_trans hv (hversion (hsave hq))⟩
  · exact ⟨p, by rw [recordAt_hset, if_neg hkey]; exact hp, htarget, hop, hv⟩

theorem recoverable_written (q : Payload) (hop : q.operation = .save) :
    Recoverable wal (r.hset (taskOf wal q).shard (taskOf wal q).target q) b q.target q.version
      false := by
  have hat : recordAt wal (r.hset (taskOf wal q).shard (taskOf wal q).target q) q.target =
      some q := by rw [recordAt_hset, if_pos rfl]
  refine ⟨?_, .inr ⟨⟨q, hat, rfl, hop, Nat.le_refl _⟩, by simp⟩⟩
  intro p hp _
  obtain rfl : q = p := Option.some.inj (hat.symm.trans hp)
  exact hop

theorem Recoverable.zadd (h : Recoverable wal r b t v complete) (shard : Nat) (key : String) :
    Recoverable wal (r.zadd shard key) b t v complete := by
  refine ⟨h.no_tombstone, ?_⟩
  rcases h.kept with hstored | ⟨hrecord, hpending⟩
  · exact .inl hstored
  · exact .inr ⟨hrecord, fun hc => mem_pending_zadd.mpr (.inr (hpending hc))⟩

theorem Recoverable.complete {complete : Bool} (h : Recoverable wal r b t v complete)
    (hq : q.target = t) :
    Recoverable wal (r.zadd (taskOf wal q).shard (taskOf wal q).target) b t v true := by
  refine ⟨h.no_tombstone, ?_⟩
  rcases h.kept with hstored | ⟨hrecord, -⟩
  · exact .inl hstored
  · refine .inr ⟨hrecord, fun _ => mem_pending_zadd.mpr (.inl ?_)⟩
    simp [taskOf, hq]

variable {shard : Nat} {keys : List String}

theorem Recoverable.hdel {complete : Bool} (h : Recoverable wal r b t v complete)
    (hstored : redisSnapshotWALShard (redisSnapshotWALTarget t) wal.shards = shard →
      redisSnapshotWALTarget t ∈ keys → HasRecord wal r t v → AtLeast b t v) :
    Recoverable wal (r.hdel shard keys) b t v complete := by
  constructor
  · intro p hp htarget
    refine h.no_tombstone p ?_ htarget
    simp only [recordAt, snapshot_hdel] at hp
    split_ifs at hp
    exact hp
  rcases h.kept with hat | ⟨hrecord, hpending⟩
  · exact .inl hat
  by_cases hkey : redisSnapshotWALShard (redisSnapshotWALTarget t) wal.shards = shard ∧
      redisSnapshotWALTarget t ∈ keys
  · exact .inl (hstored hkey.1 hkey.2 hrecord)
  right
  obtain ⟨p, hp, hrest⟩ := hrecord
  refine ⟨⟨p, ?_, hrest⟩, hpending⟩
  rw [← hp]
  simp only [recordAt, snapshot_hdel, if_neg hkey]

theorem Recoverable.zrem {complete : Bool} (h : Recoverable wal r b t v complete)
    (hstored : redisSnapshotWALShard (redisSnapshotWALTarget t) wal.shards = shard →
      redisSnapshotWALTarget t ∈ keys → HasRecord wal r t v → AtLeast b t v) :
    Recoverable wal (r.zrem shard keys) b t v complete := by
  refine ⟨h.no_tombstone, ?_⟩
  rcases h.kept with hat | ⟨hrecord, hpending⟩
  · exact .inl hat
  by_cases hkey : redisSnapshotWALShard (redisSnapshotWALTarget t) wal.shards = shard ∧
      redisSnapshotWALTarget t ∈ keys
  · exact .inl (hstored hkey.1 hkey.2 hrecord)
  · exact .inr ⟨hrecord, fun hc => mem_pending_zrem.mpr ⟨hpending hc, hkey⟩⟩

theorem Recoverable.atLeast_resolve (decode : Bytes → Doc V)
    (h : Recoverable wal r b t v true) : AtLeast (resolve wal decode r b) t v := by
  have hresolve : ∀ b' : Backend V, resolve wal decode r b t = b' t → AtLeast b' t v →
      AtLeast (resolve wal decode r b) t v := by
    rintro b' heq ⟨d, hd, hv⟩
    exact ⟨d, heq.trans hd, hv⟩
  cases hp : pendingRecord wal r t with
  | none =>
    refine hresolve b (by simp [resolve, hp]) ?_
    rcases h.kept with hat | ⟨⟨p, hrecord, htarget, -⟩, hpending⟩
    · exact hat
    have hsome : pendingRecord wal r t = some p := by
      simp only [recordAt] at hrecord
      simp [pendingRecord, show _ ∈ _ from hpending rfl, hrecord, Option.filter, htarget]
    simp [hp] at hsome
  | some p =>
    obtain ⟨htarget, -, hrecord⟩ := pendingRecord_eq_some hp
    have hop := h.no_tombstone p hrecord htarget
    refine hresolve (saveOne decode b p.saveOp) ?_ ?_
    · simp [resolve, hp, outcome, hop, htarget]
    subst htarget
    rcases h.kept with hat | ⟨⟨p', hrecord', -, -, hv⟩, -⟩
    · exact hat.save _ _ _
    · obtain rfl : p = p' := Option.some.inj (hrecord.symm.trans hrecord')
      exact (atLeast_save_self b _ _ _).le hv

end Recovery

end CubeCore.RecoverableRecords
