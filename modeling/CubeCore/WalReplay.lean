import CubeCore.ReplayProgress

namespace CubeCore.WalReplay

open TransitionSystem SaveItems VersionStore FlusherSystem SnapshotWal ReplaySystem ReplayProgress

variable {V : Type}

section Runs

variable {cfg : WalConfig} {decode : Bytes → Doc V}

/-- Steps of `Replay`, or (`none`) a stop of the process and a `Replay` of a
fresh instance. -/
def restartStep (cfg : WalConfig) (decode : Bytes → Doc V) (s : ReplayState V) :
    Option ReplayLabel → Option (ReplayState V)
  | none => some (begin s.redis s.backend)
  | some a => replayStep cfg decode s a

variable {r : Redis}

theorem replayOk_begin (hok : RecordsOk cfg r) (b : Backend V) : ReplayOk cfg (begin r b) :=
  ⟨hok, fun i hi => absurd hi (Nat.not_lt_zero i)⟩

variable {s : ReplayState V}

theorem restart_invariant (hok : RecordsOk cfg r) (b : Backend V)
    (h : Reach (restartStep cfg decode) (· = begin r b) anyStep s) :
    ReplayOk cfg s ∧ resolve cfg decode s.redis s.backend = resolve cfg decode r b := by
  refine @Reach.invariant _ _ _ _ _
    (fun s => ReplayOk cfg s ∧
      resolve cfg decode s.redis s.backend = resolve cfg decode r b) ?_ ?_ s h
  · rintro s rfl
    exact ⟨replayOk_begin hok b, rfl⟩
  rintro s a s' ⟨hs, heq⟩ - hstep
  cases a with
  | none =>
    cases hstep
    exact ⟨replayOk_begin hs.records s.backend, heq⟩
  | some =>
    have hadv := (advances_step hs hstep).1
    exact ⟨hadv.ok, hadv.resolve_eq.trans heq⟩

theorem reach_restart {init guard} (h : Reach (replayStep cfg decode) init guard s) :
    Reach (restartStep cfg decode) init anyStep s := by
  induction h with
  | start hs => exact .start hs
  | @step s s' a _ _ hstep ih => exact @Reach.step _ _ _ _ _ s s' (some a) ih trivial hstep

theorem not_failed_of_clean (hok : RecordsOk cfg r) (b : Backend V)
    (h : Reach (replayStep cfg decode) (· = begin r b) CleanStep s) : s.pc ≠ .failed := by
  refine @Reach.invariant_of _ _ _ _ _ (ReplayOk cfg) (fun s => s.pc ≠ .failed)
    (fun s hs => (restart_invariant hok b (reach_restart hs)).1) ?_ ?_ s h
  · rintro s rfl
    simp [begin]
  · intro s a s' hs _ hclean hstep
    exact (advances_step hs hstep).2 hclean

theorem exists_clean_step (hs : ReplayOk cfg s) (hdone : s.pc ≠ .done) (hfailed : s.pc ≠ .failed) :
    ∃ a s', CleanStep s a ∧ replayStep cfg decode s a = some s' := by
  obtain ⟨pc, r, b⟩ := s
  obtain ⟨hok, hpc⟩ := hs
  cases pc with
  | scan shard =>
    let members := (r.pending shard).toList.take cfg.replayBatchSize
    refine ⟨.scan members,
      ⟨if members = [] then nextShard cfg shard else .load shard members, r, b⟩, trivial, ?_⟩
    simp only [replayStep]
    refine if_pos ⟨?_, ?_, by simp [members]⟩
    · exact (r.pending shard).nodup_toList.sublist (List.take_sublist _ _)
    · intro m hm
      exact Finset.mem_toList.mp (List.mem_of_mem_take hm)
  | load shard members =>
    refine ⟨.load,
      ⟨startAck shard (members.filter fun m => (r.snapshot shard m).isNone)
        (savePayloads (members.filterMap (r.snapshot shard)))
        (deleteGroups (members.filterMap (r.snapshot shard))), r, b⟩, trivial, ?_⟩
    simp only [replayStep]
    rw [loadReplayPayloads_of_recordsOk hok]
  | ack _ _ half =>
    cases half with
    | false => exact ⟨.hdel, _, trivial, rfl⟩
    | true => exact ⟨.zrem, _, trivial, rfl⟩
  | batch _ saves groups =>
    obtain ⟨-, hrest, -⟩ := hpc
    cases saves with
    | cons => exact ⟨.bulkSave [], _, rfl, rfl⟩
    | nil =>
      cases groups with
      | nil => exact absurd ⟨rfl, rfl⟩ hrest
      | cons => exact ⟨.bulkRemove 0, _, trivial, rfl⟩
  | done => exact absurd rfl hdone
  | failed => exact absurd rfl hfailed

theorem exists_clean_done (hok : RecordsOk cfg r) (b : Backend V) :
    ∃ f, Reach (replayStep cfg decode) (· = begin r b) CleanStep f ∧ f.pc = .done := by
  have hrest : ∀ n s, replayMeasure cfg s = n →
      Reach (replayStep cfg decode) (· = begin r b) CleanStep s →
      ∃ f, Reach (replayStep cfg decode) (· = begin r b) CleanStep f ∧ f.pc = .done := by
    intro n
    induction n using Nat.strong_induction_on with
    | _ n ih =>
      rintro s rfl hs
      by_cases hdone : s.pc = .done
      · exact ⟨s, hs, hdone⟩
      · have hsok := (restart_invariant hok b (reach_restart hs)).1
        obtain ⟨a, s', hclean, hstep⟩ := exists_clean_step hsok hdone (not_failed_of_clean hok b hs)
        exact ih _ (advances_step hsok hstep).1.lower s' rfl (.step hs hclean hstep)
  exact hrest _ (begin r b) rfl (.start rfl)

theorem pending_of_done (hs : ReplayOk cfg s) (hdone : s.pc = .done) (shard : Nat) :
    s.redis.pending shard = ∅ := by
  have hbelow := hs.pc
  rw [hdone] at hbelow
  rcases Nat.lt_or_ge shard cfg.shards with hlt | hge
  · exact hbelow shard hlt
  · exact pending_of_le_shard hs.records hge

theorem backend_of_done (hok : RecordsOk cfg r) (b : Backend V)
    (h : Reach (restartStep cfg decode) (· = begin r b) anyStep s) (hdone : s.pc = .done) :
    s.backend = resolve cfg decode r b := by
  obtain ⟨hs, heq⟩ := restart_invariant hok b h
  rw [← heq]
  funext t
  simp [resolve, pendingRecord, pending_of_done hs hdone]

end Runs

/-- `Replay` ends with every pending record applied, and with the same backend when it was stopped
and run again. -/
theorem replay_applies_pending (cfg : WalConfig) (decode : Bytes → Doc V) (r : Redis)
    (hr : Built cfg r) (b : Backend V) :
    (∃ n, ∀ as s, run (replayStep cfg decode) (begin r b) as = some s → as.length ≤ n) ∧
    (∀ s, Reach (replayStep cfg decode) (· = begin r b) CleanStep s → s.pc ≠ .done →
      ∃ a s', CleanStep s a ∧ replayStep cfg decode s a = some s') ∧
    (∀ s, Reach (replayStep cfg decode) (· = begin r b) CleanStep s → s.pc = .done →
      (∀ shard, s.redis.pending shard = ∅) ∧
      ∀ shard key p, r.snapshot shard key = some p → key ∈ r.pending shard →
        (p.operation = .save → AtLeast s.backend p.target p.version) ∧
        (p.operation = .delete → s.backend p.target = none)) ∧
    (∀ m, Reach (restartStep cfg decode) (· = begin r b) anyStep m →
      ∀ s s', Reach (replayStep cfg decode) (· = begin r b) CleanStep s → s.pc = .done →
        Reach (replayStep cfg decode) (· = begin m.redis m.backend) CleanStep s' →
        s'.pc = .done → s'.backend = s.backend) := by
  have hok := hr.recordsOk
  refine ⟨⟨replayMeasure cfg (begin r b), fun as s hrun => ?_⟩, ?_, ?_, ?_⟩
  · have hbound := run_length_le (fun s a s' hs hstep => (advances_step hs hstep).1.ok)
      (fun s a s' hs hstep => (advances_step hs hstep).1.lower) (replayOk_begin hok b) hrun
    omega
  · intro s hs hdone
    exact exists_clean_step (restart_invariant hok b (reach_restart hs)).1 hdone
      (not_failed_of_clean hok b hs)
  · intro s hs hdone
    have hfinal := restart_invariant hok b (reach_restart hs)
    refine ⟨pending_of_done hfinal.1 hdone, ?_⟩
    intro shard key p hrecord hpending
    have hsettled : Settled p (resolve cfg decode r b) := by
      refine @settled_of_eq_outcome _ decode p b _ ?_
      simp only [resolve, pendingRecord_of_record hok hrecord hpending]
    rw [← backend_of_done hok b (reach_restart hs) hdone] at hsettled
    unfold Settled at hsettled
    constructor
    · intro hop
      simpa only [hop] using hsettled
    · intro hop
      simpa only [hop] using hsettled
  · intro m hm s s' hs hdone hs' hdone'
    obtain ⟨hmok, hmeq⟩ := restart_invariant hok b hm
    rw [backend_of_done hok b (reach_restart hs) hdone,
      backend_of_done hmok.records m.backend (reach_restart hs') hdone', hmeq]

def oneShard : WalConfig := ⟨1, 1, 1, false, 1, by decide, by decide⟩

def heroRecord : Payload where
  operation := .save
  target := ⟨"game", .global, "hero", 7⟩
  version := 1
  fence := 0
  ownerSid := 0
  shared := false
  mask := 1
  mode := .full
  data := [1]

/-- A `writeSnapshot` that was interrupted between HSet and ZAdd. -/
def interrupted : Redis := Redis.empty.apply (.hset (taskOf oneShard heroRecord))

def written : Redis := interrupted.apply (.zadd (taskOf oneShard heroRecord))

theorem built_interrupted : Built oneShard interrupted :=
  .command .empty ⟨heroRecord, by decide, rfl⟩

theorem built_written : Built oneShard written :=
  .command built_interrupted ⟨heroRecord, by decide, rfl⟩

theorem replay_applies_pending_hero :
    Built oneShard written ∧
    ∀ s : ReplayState Nat,
      Reach (replayStep oneShard fun _ _ => none) (· = begin written fun _ => none) CleanStep s →
      s.pc = .done → AtLeast s.backend heroRecord.target 1 :=
  ⟨built_written, fun s hs hdone =>
    (((replay_applies_pending oneShard _ written built_written _).2.2.1 s hs hdone).2 0
      (redisSnapshotWALTarget heroRecord.target) heroRecord (by decide +kernel)
      (by decide +kernel)).1 rfl⟩

/-- The record of an interrupted write has no member, and `Replay` leaves it. -/
theorem interrupted_write_not_replayed :
    ¬ ∀ (cfg : WalConfig) (decode : Bytes → Doc Nat) (r : Redis), Built cfg r →
      ∀ (b : Backend Nat) (s : ReplayState Nat),
        Reach (replayStep cfg decode) (· = begin r b) CleanStep s → s.pc = .done →
        ∀ shard key p, r.snapshot shard key = some p → p.operation = .save →
          AtLeast s.backend p.target p.version := by
  intro h
  have hreach : Reach (replayStep oneShard fun _ _ => none)
      (· = begin interrupted fun _ : Target => (none : Option (Stored (Doc Nat)))) CleanStep
      ⟨.done, interrupted, fun _ => none⟩ :=
    @Reach.step _ _ _ _ _ _ _ (.scan []) (.start rfl) trivial rfl
  obtain ⟨d, hd, -⟩ := h oneShard _ interrupted built_interrupted _ _ hreach rfl 0
    (redisSnapshotWALTarget heroRecord.target) heroRecord (by decide +kernel) rfl
  simp at hd

end CubeCore.WalReplay
