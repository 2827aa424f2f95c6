import CubeCore.KeptOperations
import CubeCore.ReplaySystem
import Mathlib.Algebra.Order.BigOperators.Group.Finset

namespace CubeCore.ReplayProgress

open SaveItems BatchDedup KeptOperations VersionStore FlusherSystem SnapshotWal ReplaySystem List
open TransitionSystem (of_eq_some elim_of_eq_some)

variable {V : Type}

section Batch

/-- The payloads are pending records of their keys; deletes are grouped by their remove key. -/
structure Work (r : Redis) (shard : Nat) (saves : List Payload)
    (groups : List (RemoveKey × List Payload)) : Prop where
  saveRecord : ∀ p ∈ saves, p.operation = .save ∧
    r.snapshot shard (redisSnapshotWALPayloadTarget p) = some p ∧
      redisSnapshotWALPayloadTarget p ∈ r.pending shard
  deleteRecord : ∀ g ∈ groups, ∀ p ∈ g.2, p.operation = .delete ∧ p.removeKey = g.1 ∧
    r.snapshot shard (redisSnapshotWALPayloadTarget p) = some p ∧
      redisSnapshotWALPayloadTarget p ∈ r.pending shard
  saves_nodup : saves.Nodup
  groups_nodup : (groups.map Prod.fst).Nodup
  group_ne_nil : ∀ g ∈ groups, g.2 ≠ []

/-- No payload of the batch stands under one of the keys. -/
structure Apart (keys : List String) (saves : List Payload)
    (groups : List (RemoveKey × List Payload)) : Prop where
  save : ∀ p ∈ saves, redisSnapshotWALPayloadTarget p ∉ keys
  delete : ∀ g ∈ groups, ∀ p ∈ g.2, redisSnapshotWALPayloadTarget p ∉ keys

variable {r : Redis} {shard : Nat} {keys : List String} {saves : List Payload}
  {groups : List (RemoveKey × List Payload)}

theorem Work.hdel (h : Work r shard saves groups) (hapart : Apart keys saves groups) :
    Work (r.hdel shard keys) shard saves groups := by
  refine ⟨?_, ?_, h.saves_nodup, h.groups_nodup, h.group_ne_nil⟩
  · intro p hp
    rw [snapshot_hdel, if_neg fun hat => hapart.save p hp hat.2]
    exact h.saveRecord p hp
  · intro g hg p hp
    rw [snapshot_hdel, if_neg fun hat => hapart.delete g hg p hp hat.2]
    exact h.deleteRecord g hg p hp

theorem Work.zrem (h : Work r shard saves groups) (hapart : Apart keys saves groups) :
    Work (r.zrem shard keys) shard saves groups := by
  refine ⟨?_, ?_, h.saves_nodup, h.groups_nodup, h.group_ne_nil⟩
  · intro p hp
    obtain ⟨hop, hrecord, hpending⟩ := h.saveRecord p hp
    exact ⟨hop, hrecord, mem_pending_zrem.mpr ⟨hpending, fun hat => hapart.save p hp hat.2⟩⟩
  intro g hg p hp
  obtain ⟨hop, hkey, hrecord, hpending⟩ := h.deleteRecord g hg p hp
  exact ⟨hop, hkey, hrecord,
    mem_pending_zrem.mpr ⟨hpending, fun hat => hapart.delete g hg p hp hat.2⟩⟩

theorem eq_of_payloadTarget_eq (hp : r.snapshot shard (redisSnapshotWALPayloadTarget p) = some p)
    (hq : r.snapshot shard (redisSnapshotWALPayloadTarget q) = some q)
    (h : redisSnapshotWALPayloadTarget p = redisSnapshotWALPayloadTarget q) : p = q := by
  rw [h, hq] at hp
  exact (Option.some.inj hp).symm

theorem Work.saves_targets_nodup (h : Work r shard saves groups) :
    ((saves.map (Payload.saveOp (V := V))).map SaveOp.target).Nodup := by
  rw [map_map]
  refine h.saves_nodup.map_on ?_
  intro p hp q hq heq
  exact eq_of_payloadTarget_eq (h.saveRecord p hp).2.1 (h.saveRecord q hq).2.1
    (congrArg redisSnapshotWALTarget heq)

theorem Work.rest_of_saves (h : Work r shard saves groups) :
    Work r shard [] groups ∧ Apart (saves.map redisSnapshotWALPayloadTarget) [] groups := by
  refine ⟨⟨by simp, h.deleteRecord, .nil, h.groups_nodup, h.group_ne_nil⟩, by simp, ?_⟩
  intro g hg p hp hmem
  obtain ⟨q, hq, heq⟩ := mem_map.mp hmem
  obtain ⟨hqop, hqrecord, -⟩ := h.saveRecord q hq
  obtain ⟨hpop, -, hprecord, -⟩ := h.deleteRecord g hg p hp
  obtain rfl := eq_of_payloadTarget_eq hqrecord hprecord heq
  simp [hqop] at hpop

theorem Work.rest_of_group (h : Work r shard [] groups) (hi : groups[i]? = some group) :
    Work r shard [] (groups.eraseIdx i) ∧
      Apart (group.2.map redisSnapshotWALPayloadTarget) [] (groups.eraseIdx i) := by
  have hgroup : group ∈ groups := mem_of_getElem? hi
  have hsub : (groups.eraseIdx i).Sublist groups := eraseIdx_sublist groups i
  refine ⟨⟨by simp, ?_, .nil, ?_, ?_⟩, by simp, ?_⟩
  · intro g hg
    exact h.deleteRecord g (hsub.subset hg)
  · exact h.groups_nodup.sublist (hsub.map Prod.fst)
  · intro g hg
    exact h.group_ne_nil g (hsub.subset hg)
  · intro g hg p hp hmem
    obtain ⟨q, hq, heq⟩ := mem_map.mp hmem
    obtain ⟨-, hqkey, hqrecord, -⟩ := h.deleteRecord group hgroup q hq
    obtain ⟨-, hpkey, hprecord, -⟩ := h.deleteRecord g (hsub.subset hg) p hp
    obtain rfl := eq_of_payloadTarget_eq hqrecord hprecord heq
    -- The removed group would occur a second time among the others.
    obtain ⟨j, hj⟩ := List.getElem?_of_mem hg
    rw [List.getElem?_eraseIdx] at hj
    have hfst : g.1 = group.1 := hpkey.symm.trans hqkey
    have hnth : ∀ k, groups[k]? = some g → k = i := by
      intro k hk
      have hk' : (groups.map Prod.fst)[k]? = some group.1 := by simp [hk, hfst]
      have hi' : (groups.map Prod.fst)[i]? = some group.1 := by simp [hi]
      exact (List.getElem?_inj (List.getElem?_eq_some_iff.mp hk').1 h.groups_nodup).mp
        (hk'.trans hi'.symm)
    split at hj
    · have := hnth j hj
      omega
    · have := hnth (j + 1) hj
      omega

theorem mem_deleteGroups (hg : g ∈ deleteGroups payloads) :
    g.2 ≠ [] ∧ ∀ p ∈ g.2, p ∈ payloads ∧ p.operation = .delete ∧ p.removeKey = g.1 := by
  simp only [deleteGroups, mem_map, mem_dedup] at hg
  obtain ⟨rk, ⟨q, hq, rfl⟩, rfl⟩ := hg
  refine ⟨ne_nil_of_mem (mem_filter.mpr ⟨hq, by simp⟩), ?_⟩
  intro p hp
  simp only [mem_filter, decide_eq_true_eq] at hp
  exact ⟨hp.1.1, hp.1.2, hp.2⟩

theorem deleteGroups_fst_nodup (payloads : List Payload) :
    ((deleteGroups payloads).map Prod.fst).Nodup := by
  simp only [deleteGroups, map_map]
  rw [show (Prod.fst ∘ fun rk : RemoveKey => (rk, _)) = id from rfl, map_id]
  exact nodup_dedup _

theorem eq_nil_of_parts_eq_nil (hsaves : savePayloads payloads = [])
    (hgroups : deleteGroups payloads = []) : payloads = [] := by
  rw [eq_nil_iff_forall_not_mem]
  intro p hp
  cases hop : p.operation with
  | save =>
    have hmem : p ∈ savePayloads payloads := mem_filter.mpr ⟨hp, by simp [hop]⟩
    simp [hsaves] at hmem
  | delete =>
    simp only [deleteGroups, map_eq_nil_iff, dedup_eq_nil] at hgroups
    have hmem : p ∈ payloads.filter fun p => p.operation = .delete :=
      mem_filter.mpr ⟨hp, by simp [hop]⟩
    simp [hgroups] at hmem

variable {cfg : WalConfig} {members : List String}

theorem work_of_load (hok : RecordsOk cfg r) (hnodup : members.Nodup)
    (hmembers : ∀ m ∈ members, m ∈ r.pending shard) :
    Work r shard (savePayloads (members.filterMap (r.snapshot shard)))
      (deleteGroups (members.filterMap (r.snapshot shard))) := by
  have hrecord : ∀ p ∈ members.filterMap (r.snapshot shard),
      redisSnapshotWALPayloadTarget p ∈ members ∧
        r.snapshot shard (redisSnapshotWALPayloadTarget p) = some p := by
    intro p hp
    obtain ⟨m, hm, hmp⟩ := mem_filterMap.mp hp
    obtain ⟨-, rfl, -⟩ := hok.record shard m p hmp
    exact ⟨hm, hmp⟩
  refine ⟨?_, ?_, ?_, deleteGroups_fst_nodup _, fun g hg => (mem_deleteGroups hg).1⟩
  · intro p hp
    obtain ⟨hload, hop⟩ := mem_filter.mp hp
    obtain ⟨hm, hat⟩ := hrecord p hload
    exact ⟨of_decide_eq_true hop, hat, hmembers _ hm⟩
  · intro g hg p hp
    obtain ⟨hload, hop, hkey⟩ := (mem_deleteGroups hg).2 p hp
    obtain ⟨hm, hat⟩ := hrecord p hload
    exact ⟨hop, hkey, hat, hmembers _ hm⟩
  · refine List.Nodup.filter _ (hnodup.filterMap ?_)
    intro m m' p hm hm'
    obtain ⟨-, hp, -⟩ := hok.record shard m p hm
    obtain ⟨-, hp', -⟩ := hok.record shard m' p hm'
    exact hp.symm.trans hp'

theorem apart_stale (hok : RecordsOk cfg r) :
    Apart (members.filter fun m => (r.snapshot shard m).isNone)
      (savePayloads (members.filterMap (r.snapshot shard)))
      (deleteGroups (members.filterMap (r.snapshot shard))) := by
  have hfound : ∀ p ∈ members.filterMap (r.snapshot shard),
      redisSnapshotWALPayloadTarget p ∉ members.filter fun m => (r.snapshot shard m).isNone := by
    intro p hp hmem
    obtain ⟨m, -, hmp⟩ := mem_filterMap.mp hp
    obtain ⟨-, rfl, -⟩ := hok.record shard m p hmp
    have hnone := (mem_filter.mp hmem).2
    rw [redisSnapshotWALPayloadTarget, hmp] at hnone
    simp at hnone
  constructor
  · intro p hp
    exact hfound p (mem_filter.mp hp).1
  · intro g hg p hp
    exact hfound p ((mem_deleteGroups hg).2 p hp).1

theorem loadReplayPayloads_of_recordsOk (hok : RecordsOk cfg r) :
    loadReplayPayloads r shard members =
      some (members.filterMap (r.snapshot shard),
        members.filter fun m => (r.snapshot shard m).isNone) := by
  have hall : (members.filterMap (r.snapshot shard)).all Payload.valid = true := by
    rw [all_eq_true]
    intro p hp
    obtain ⟨m, -, hmp⟩ := mem_filterMap.mp hp
    exact (hok.record shard m p hmp).1
  simp only [loadReplayPayloads]
  rw [if_pos hall]

end Batch

section Invariant

variable {cfg : WalConfig} {decode : Bytes → Doc V}

/-- Before its HDel the records of an `ackTasks` call have been applied, after it there are none. -/
structure AckOk (r : Redis) (b : Backend V) (shard : Nat) (keys : List String)
    (half : Bool) : Prop where
  ne_nil : keys ≠ []
  pending : ∀ key ∈ keys, key ∈ r.pending shard
  applied : half = false → ∀ key ∈ keys, ∀ p, r.snapshot shard key = some p → Settled p b
  deleted : half = true → ∀ key ∈ keys, r.snapshot shard key = none

def EmptyBelow (r : Redis) (shard : Nat) : Prop := ∀ i < shard, r.pending i = ∅

def PCOk (cfg : WalConfig) (r : Redis) (b : Backend V) : ReplayPC → Prop
  | .scan shard => EmptyBelow r shard
  | .load shard members => EmptyBelow r shard ∧ members ≠ [] ∧ members.Nodup ∧
      ∀ m ∈ members, m ∈ r.pending shard
  | .ack shard keys half saves groups => EmptyBelow r shard ∧ AckOk r b shard keys half ∧
      Work r shard saves groups ∧ Apart keys saves groups
  | .batch shard saves groups => EmptyBelow r shard ∧ ¬ (saves = [] ∧ groups = []) ∧
      Work r shard saves groups
  | .done => EmptyBelow r cfg.shards
  | .failed => True

structure ReplayOk (cfg : WalConfig) (s : ReplayState V) : Prop where
  records : RecordsOk cfg s.redis
  pc : PCOk cfg s.redis s.backend s.pc

variable {r : Redis} {b : Backend V} {shard : Nat} {saves : List Payload}
  {groups : List (RemoveKey × List Payload)}

theorem pcOk_resume (hbelow : EmptyBelow r shard) (hwork : Work r shard saves groups) :
    PCOk cfg r b (resume shard saves groups) := by
  unfold resume
  split_ifs with hrest
  · exact hbelow
  · exact ⟨hbelow, hrest, hwork⟩

variable {keys : List String}

theorem startAck_of_pending (hok : RecordsOk cfg r) (hne : keys ≠ [])
    (hpending : ∀ key ∈ keys, key ∈ r.pending shard) (saves : List Payload)
    (groups : List (RemoveKey × List Payload)) :
    startAck shard keys saves groups = .ack shard keys false saves groups := by
  have htargets : keys.filter (· ≠ "") = keys := by
    rw [filter_eq_self]
    intro key hkey
    exact decide_eq_true (hok.member shard key (hpending key hkey)).1
  simp only [startAck]
  rw [htargets, if_neg hne]

def pendingCount (cfg : WalConfig) (r : Redis) : Nat :=
  ∑ shard ∈ Finset.range cfg.shards, (r.pending shard).card

def rank (cfg : WalConfig) : ReplayPC → Nat
  | .scan shard => 5 + (cfg.shards - shard)
  | .load _ _ => 4
  | .batch _ _ _ => 3
  | .ack _ _ false _ _ => 2
  | .ack _ _ true _ _ => 1
  | .done | .failed => 0

/-- Between two ZRem calls the rank falls, and each ZRem takes a member away. -/
def replayMeasure (cfg : WalConfig) (s : ReplayState V) : Nat :=
  pendingCount cfg s.redis * (cfg.shards + 6) + rank cfg s.pc

theorem rank_resume_le (cfg : WalConfig) (shard : Nat) (saves : List Payload)
    (groups : List (RemoveKey × List Payload)) :
    rank cfg (resume shard saves groups) ≤ 5 + cfg.shards := by
  unfold resume
  split
  · simp only [rank]
    omega
  · simp only [rank]
    omega

section

variable (hok : RecordsOk cfg r)
include hok

theorem pendingCount_zrem_lt (hne : keys ≠ []) (hpending : ∀ key ∈ keys, key ∈ r.pending shard) :
    pendingCount cfg (r.zrem shard keys) < pendingCount cfg r := by
  obtain ⟨key, hkey⟩ := exists_mem_of_ne_nil keys hne
  have hmem := hpending key hkey
  have hshard : shard < cfg.shards := by
    rw [← (hok.member shard key hmem).2]
    exact redisSnapshotWALShard_lt key cfg.shards_pos
  have hsub : ∀ i, (r.zrem shard keys).pending i ⊆ r.pending i :=
    fun i k hk => (mem_pending_zrem.mp hk).1
  apply Finset.sum_lt_sum
  · intro i _
    exact Finset.card_le_card (hsub i)
  refine ⟨shard, Finset.mem_range.mpr hshard, Finset.card_lt_card ?_⟩
  refine Finset.ssubset_iff_subset_ne.mpr ⟨hsub shard, ?_⟩
  intro heq
  exact (mem_pending_zrem.mp (heq ▸ hmem)).2 ⟨rfl, hkey⟩

/-- A step of `Replay` keeps the invariant and the final backend and lowers the measure. -/
structure Advances (cfg : WalConfig) (decode : Bytes → Doc V) (s s' : ReplayState V) :
    Prop where
  ok : ReplayOk cfg s'
  resolve_eq : resolve cfg decode s'.redis s'.backend = resolve cfg decode s.redis s.backend
  lower : replayMeasure cfg s' < replayMeasure cfg s

theorem advances_of_rank (hpc : PCOk cfg r b pc') (hrank : rank cfg pc' < rank cfg pc) :
    Advances cfg decode ⟨pc, r, b⟩ ⟨pc', r, b⟩ :=
  ⟨⟨hok, hpc⟩, rfl, Nat.add_lt_add_left hrank _⟩

theorem advances_scan (hbelow : EmptyBelow r shard) (hnodup : members.Nodup)
    (hmembers : ∀ m ∈ members, m ∈ r.pending shard)
    (hlength : members.length = min cfg.replayBatchSize (r.pending shard).card) :
    Advances cfg decode ⟨.scan shard, r, b⟩
      ⟨if members = [] then nextShard cfg shard else .load shard members, r, b⟩ := by
  apply advances_of_rank hok
  · split_ifs with hne
    · have hcard : (r.pending shard).card = 0 := by
        have hbatch := cfg.batch_pos
        rw [hne, length_nil] at hlength
        omega
      have hnext : EmptyBelow r (shard + 1) := by
        intro i hi
        rcases Nat.lt_succ_iff_lt_or_eq.mp hi with hlt | rfl
        · exact hbelow i hlt
        · exact Finset.card_eq_zero.mp hcard
      unfold nextShard
      split
      · exact hnext
      · exact fun i hi => hnext i (by omega)
    · exact ⟨hbelow, hne, hnodup, hmembers⟩
  · split
    · unfold nextShard
      split
      · simp only [rank]
        omega
      · simp only [rank]
        omega
    · simp only [rank]
      omega

theorem advances_load (hpc : PCOk cfg r b (.load shard members)) :
    Advances cfg decode ⟨.load shard members, r, b⟩
      ⟨startAck shard (members.filter fun m => (r.snapshot shard m).isNone)
        (savePayloads (members.filterMap (r.snapshot shard)))
        (deleteGroups (members.filterMap (r.snapshot shard))), r, b⟩ := by
  obtain ⟨hbelow, hne, hnodup, hmembers⟩ := hpc
  have hwork := work_of_load hok hnodup hmembers
  by_cases hstale : (members.filter fun m => (r.snapshot shard m).isNone) = []
  · -- With no stale member some record was found, so a batch follows.
    have hfound : members.filterMap (r.snapshot shard) ≠ [] := by
      obtain ⟨m, hm⟩ := exists_mem_of_ne_nil members hne
      have hsome := filter_eq_nil_iff.mp hstale m hm
      obtain ⟨p, hp⟩ := Option.ne_none_iff_exists'.mp (by simpa using hsome)
      exact ne_nil_of_mem (mem_filterMap.mpr ⟨m, hm, hp⟩)
    rw [hstale]
    have hrest := fun h : _ ∧ _ => hfound (eq_nil_of_parts_eq_nil h.1 h.2)
    simp only [startAck, filter_nil, if_true, resume]
    rw [if_neg hrest]
    exact advances_of_rank hok ⟨hbelow, hrest, hwork⟩ (by simp [rank])
  · have hpending : ∀ key ∈ members.filter fun m => (r.snapshot shard m).isNone,
        key ∈ r.pending shard := fun key hkey => hmembers key (mem_filter.mp hkey).1
    have hnone : ∀ key ∈ members.filter fun m => (r.snapshot shard m).isNone,
        r.snapshot shard key = none := by
      intro key hkey
      exact Option.isNone_iff_eq_none.mp (mem_filter.mp hkey).2
    rw [startAck_of_pending hok hstale hpending]
    refine advances_of_rank hok ⟨hbelow, ⟨hstale, hpending, ?_, ?_⟩, hwork, apart_stale hok⟩
      (by simp [rank])
    · intro _ key hkey p hp
      simp [hnone key hkey] at hp
    · intro _
      exact hnone

theorem advances_hdel (hpc : PCOk cfg r b (.ack shard keys false saves groups)) :
    Advances cfg decode ⟨.ack shard keys false saves groups, r, b⟩
      ⟨.ack shard keys true saves groups, r.hdel shard keys, b⟩ := by
  obtain ⟨hbelow, hack, hwork, hapart⟩ := hpc
  refine ⟨⟨recordsOk_apply hok (c := .hdel shard keys) trivial, ?_⟩, ?_, ?_⟩
  · refine ⟨hbelow, ⟨hack.ne_nil, hack.pending, by simp, ?_⟩, hwork.hdel hapart, hapart⟩
    intro _ key hkey
    simp [snapshot_hdel, hkey]
  · exact resolve_hdel (hack.applied rfl)
  · exact Nat.add_lt_add_left (by simp [rank]) _

theorem advances_zrem (hpc : PCOk cfg r b (.ack shard keys true saves groups)) :
    Advances cfg decode ⟨.ack shard keys true saves groups, r, b⟩
      ⟨resume shard saves groups, r.zrem shard keys, b⟩ := by
  obtain ⟨hbelow, hack, hwork, hapart⟩ := hpc
  refine ⟨⟨recordsOk_apply hok (c := .zrem shard keys) trivial, pcOk_resume ?_ ?_⟩, ?_, ?_⟩
  · intro i hi
    rw [Finset.eq_empty_iff_forall_notMem]
    intro key hkey
    have hold := (mem_pending_zrem.mp hkey).1
    simp [hbelow i hi] at hold
  · exact hwork.zrem hapart
  · exact resolve_zrem (hack.deleted rfl)
  · have hcount := pendingCount_zrem_lt hok hack.ne_nil hack.pending
    have hrank := rank_resume_le cfg shard saves groups
    have hmul : (pendingCount cfg (r.zrem shard keys) + 1) * (cfg.shards + 6) ≤
        pendingCount cfg r * (cfg.shards + 6) := Nat.mul_le_mul_right _ hcount
    rw [Nat.add_one_mul] at hmul
    simp only [replayMeasure]
    omega

end

theorem Work.settled_of_bulkSave (hwork : Work r shard saves groups)
    (hresults : .failed ∉ (FlusherSystem.bulkSave decode b (saves.map Payload.saveOp) fails).2)
    (hp : p ∈ saves) :
    Settled p (FlusherSystem.bulkSave decode b (saves.map Payload.saveOp) fails).1 := by
  obtain ⟨i, hi⟩ := List.getElem?_of_mem hp
  set reply := FlusherSystem.bulkSave decode b (saves.map Payload.saveOp) fails with hreply
  have hlength : reply.2.length = saves.length := by simp [hreply, bulkSave_length]
  obtain ⟨result, hresult⟩ : ∃ result, reply.2[i]? = some result := by
    have hlt := (List.getElem?_eq_some_iff.mp hi).1
    exact ⟨_, List.getElem?_eq_getElem (hlength ▸ hlt)⟩
  have hzip : (p.saveOp (V := V), result) ∈ (saves.map Payload.saveOp).zip reply.2 :=
    mem_of_getElem? (List.getElem?_zip_eq_some.mpr ⟨by simp [hi], hresult⟩)
  have hok : result ≠ .failed := fun h => hresults (h ▸ mem_of_getElem? hresult)
  simp only [Settled, (hwork.saveRecord p hp).1]
  exact atLeast_of_bulkSave decode b hzip hok

theorem advances_bulkSave (hne : saves ≠ []) (hok : RecordsOk cfg r)
    (hpc : PCOk cfg r b (.batch shard saves groups)) (fails : List Bool) :
    let reply := FlusherSystem.bulkSave decode b (saves.map Payload.saveOp) fails
    Advances cfg decode ⟨.batch shard saves groups, r, b⟩
      ⟨if .failed ∈ reply.2 then .failed
        else startAck shard (saves.map redisSnapshotWALPayloadTarget) [] groups,
        r, reply.1⟩ := by
  intro reply
  obtain ⟨hbelow, -, hwork⟩ := hpc
  have hkeys : ∀ key ∈ saves.map redisSnapshotWALPayloadTarget, key ∈ r.pending shard := by
    intro key hkey
    obtain ⟨p, hp, rfl⟩ := mem_map.mp hkey
    exact (hwork.saveRecord p hp).2.2
  rw [startAck_of_pending hok (by simpa using hne) hkeys]
  refine ⟨⟨hok, ?_⟩, ?_, Nat.add_lt_add_left ?_ _⟩
  · split_ifs with hresults
    · trivial
    obtain ⟨hrest, hapart⟩ := hwork.rest_of_saves
    refine ⟨hbelow, ⟨by simpa using hne, hkeys, ?_, by simp⟩, hrest, hapart⟩
    intro _ key hkey q hq
    obtain ⟨p, hp, rfl⟩ := mem_map.mp hkey
    obtain rfl : p = q := Option.some.inj ((hwork.saveRecord p hp).2.1.symm.trans hq)
    exact hwork.settled_of_bulkSave hresults hp
  · apply resolve_of_applied
    intro t
    rcases bulkSave_cases decode b hwork.saves_targets_nodup fails t
      with hsame | ⟨op, hop, hto, hnew⟩
    · exact .inl hsame
    obtain ⟨p, hp, rfl⟩ := mem_map.mp hop
    obtain ⟨hsave, hrecord, hpending⟩ := hwork.saveRecord p hp
    obtain rfl : p.target = t := hto
    refine .inr ⟨p, pendingRecord_of_record hok hrecord hpending, ?_⟩
    simp only [outcome, hsave]
    exact hnew
  · split <;> simp [rank]

theorem advances_bulkRemove (hok : RecordsOk cfg r) (hpc : PCOk cfg r b (.batch shard [] groups))
    (hi : groups[i]? = some group) :
    Advances cfg decode ⟨.batch shard [] groups, r, b⟩
      ⟨startAck shard (group.2.map redisSnapshotWALPayloadTarget) [] (groups.eraseIdx i),
        r, remove b (groupTargets group)⟩ := by
  obtain ⟨hbelow, -, hwork⟩ := hpc
  have hgroup := mem_of_getElem? hi
  have hne : group.2.map redisSnapshotWALPayloadTarget ≠ [] := by
    simpa using hwork.group_ne_nil group hgroup
  have hkeys : ∀ key ∈ group.2.map redisSnapshotWALPayloadTarget, key ∈ r.pending shard := by
    intro key hkey
    obtain ⟨p, hp, rfl⟩ := mem_map.mp hkey
    exact (hwork.deleteRecord group hgroup p hp).2.2.2
  have htarget : ∀ p ∈ group.2, group.1.target p.target.id = p.target := by
    intro p hp
    rw [← (hwork.deleteRecord group hgroup p hp).2.1]
    rfl
  rw [startAck_of_pending hok hne hkeys]
  refine ⟨⟨hok, ?_⟩, ?_, Nat.add_lt_add_left (by simp [rank]) _⟩
  · obtain ⟨hrest, hapart⟩ := hwork.rest_of_group hi
    refine ⟨hbelow, ⟨hne, hkeys, ?_, by simp⟩, hrest, hapart⟩
    intro _ key hkey q hq
    obtain ⟨p, hp, rfl⟩ := mem_map.mp hkey
    obtain ⟨hdelete, -, hrecord, -⟩ := hwork.deleteRecord group hgroup p hp
    obtain rfl : p = q := Option.some.inj (hrecord.symm.trans hq)
    simp only [Settled, hdelete]
    exact remove_of_mem b (mem_map.mpr ⟨p, hp, htarget p hp⟩)
  · apply resolve_of_applied
    intro t
    by_cases ht : t ∈ groupTargets group
    · obtain ⟨p, hp, rfl⟩ := mem_map.mp ht
      obtain ⟨hdelete, -, hrecord, hpending⟩ := hwork.deleteRecord group hgroup p hp
      refine .inr ⟨p, ?_, ?_⟩
      · rw [htarget p hp]
        exact pendingRecord_of_record hok hrecord hpending
      · simp only [outcome, hdelete]
        exact remove_of_mem b ht
    · exact .inl (remove_of_notMem b ht)

theorem resume_ne_failed (shard : Nat) (saves : List Payload)
    (groups : List (RemoveKey × List Payload)) : resume shard saves groups ≠ .failed := by
  unfold resume
  split <;> simp

theorem startAck_ne_failed (shard : Nat) (keys : List String) (saves : List Payload)
    (groups : List (RemoveKey × List Payload)) : startAck shard keys saves groups ≠ .failed := by
  simp only [startAck]
  split
  · exact resume_ne_failed _ _ _
  · simp

theorem advances_step (hs : ReplayOk cfg s) (hstep : replayStep cfg decode s a = some s') :
    Advances cfg decode s s' ∧ (CleanStep s a → s'.pc ≠ .failed) := by
  obtain ⟨pc, r, b⟩ := s
  obtain ⟨hok, hpc⟩ := hs
  apply of_eq_some hstep
  fun_cases replayStep cfg decode ⟨pc, r, b⟩ a with
  | case1 _ _ heq hscan =>
    cases heq
    refine ⟨advances_scan hok hpc hscan.1 hscan.2.1 hscan.2.2, fun _ => ?_⟩
    simp only [nextShard]
    split
    · split <;> simp
    · simp
  | case4 _ _ _ hload =>
    rw [loadReplayPayloads_of_recordsOk hok] at hload
    cases hload
  | case5 _ _ heq _ _ hload =>
    cases heq
    rw [loadReplayPayloads_of_recordsOk hok] at hload
    cases hload
    exact ⟨advances_load hok hpc, fun _ => startAck_ne_failed _ _ _ _⟩
  | case7 _ _ _ _ heq =>
    cases heq
    exact ⟨advances_hdel hok hpc, by simp⟩
  | case9 _ _ _ _ heq =>
    cases heq
    exact ⟨advances_zrem hok hpc, fun _ => resume_ne_failed _ _ _⟩
  | case11 fails _ _ _ _ heq =>
    cases heq
    refine ⟨advances_bulkSave (cons_ne_nil _ _) hok hpc fails, ?_⟩
    rintro rfl
    rw [if_neg (bulkSave_results decode b _ (by simp))]
    exact startAck_ne_failed _ _ _ _
  | case13 _ _ _ heq =>
    cases heq
    refine elim_of_eq_some fun _ hstep => ?_
    obtain ⟨group, hi, rfl⟩ := Option.map_eq_some_iff.mp hstep
    exact ⟨advances_bulkRemove hok hpc hi, fun _ => startAck_ne_failed _ _ _ _⟩
  | case16 hlive =>
    refine ⟨advances_of_rank hok trivial ?_, False.elim⟩
    rcases pc with _ | _ | ⟨_, _, half, _, _⟩ | _ | _ | _
    · simp [rank]
    · simp [rank]
    · cases half <;> simp [rank]
    · simp [rank]
    · simp at hlive
    · simp at hlive
  | _ => trivial

end Invariant

end CubeCore.ReplayProgress
