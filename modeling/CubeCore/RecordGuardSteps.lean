import CubeCore.RecordGuard

namespace CubeCore.RecordGuardSteps

open TransitionSystem SaveItems VersionStore FlusherSystem FlusherMoves BatchOwnership Function List
open List.Subset
open Option OperationOrigin SnapshotWal DurableCheckpoint RecoverableRecords RecordGuard

variable {V : Type} {cfg : Config V} {wal : WalConfig} {s s' : Durable V} {c i : Nat} {p : Pid}

theorem tasksOf_ackCall_subset (tasks : List AckTask) : tasksOf (ackCall s tasks) ⊆ tasks := by
  unfold ackCall
  split
  · simp [tasksOf]
  · split <;> exact refl _

section Steps

variable (h : Guarded wal s)
include h

theorem guarded_submitStep {items : List (SaveItem V)} {remove : Bool}
    (hremoves : remove = true → ∀ w ∈ items, w.isRemove = true)
    (hsaves : remove = false → ∀ w ∈ items, (writeTask wal w).isSome = true)
    (hstep : submitStep s c remove items = some s') : Guarded wal s' := by
  have hbegin : (if items = [] then some (s.setSubmit c (.returned true))
      else some { s.setSubmit c (.write remove items items) with
        deleted := if remove then s.deleted ++ items.map SaveItem.target else s.deleted }) =
      some s' → Guarded wal s' := by
    intro heq
    split at heq
    · cases heq
      exact h.setSubmit trivial
    cases heq
    have hsub : s.deleted ⊆
        if remove then s.deleted ++ items.map SaveItem.target else s.deleted := by
      split
      · exact subset_append_left _ _
      · exact refl _
    refine h.step ⟨hsub, fun _ _ _ => id, fun _ _ _ _ hold => hold⟩ h.records
      (origin_mono hsub h.origin) h.inBatch (fun _ _ hw => .inl hw)
      (fun _ ht => .inl (ht.of_eq rfl rfl rfl)) ?_ (fun _ hw => .inl hw)
    refine submits_setSubmit (.write remove items items) ⟨[], rfl, ?_, hsaves, by simp⟩ rfl
    intro hr w hw
    refine ⟨hremoves hr w hw, ?_⟩
    simp only [hr, if_true]
    exact mem_append_right _ (mem_map_of_mem hw)
  simp only [submitStep] at hstep
  split at hstep
  · exact hbegin hstep
  · exact hbegin hstep
  · simp at hstep

theorem guarded_enqueue (hstep : enqueueStep wal s p = some s') : Guarded wal s' := by
  simp only [enqueueStep] at hstep
  split at hstep
  · rename_i task todo hpc
    have hmem : ∀ x ∈ task :: todo, HoldsTask s x := fun x hx =>
      .acking p (by rw [hpc]; exact hx)
    split at hstep
    · cases hstep
      refine h.step_tasks rfl ?_
      rintro x (⟨q, hq⟩ | ⟨i, hi⟩ | ⟨i, half, hi⟩)
      · left
        rcases mem_tasksOf_update hq with hrest | hold
        · split at hrest
          · simp [tasksOf] at hrest
          · exact hmem x (mem_cons_of_mem task hrest)
        · exact .acking q hold
      · left
        simp only at hi
        rcases eq_or_ne i (redisSnapshotWALWorker task.target wal.workerCount) with rfl | hne
        · rw [update_self] at hi
          rcases mem_append.mp hi with hold | hnew
          · exact .queue _ hold
          · exact hmem x (mem_singleton.mp hnew ▸ mem_cons_self)
        · rw [update_of_ne hne] at hi
          exact .queue i hi
      · exact .inl (.worker i half hi)
    · cases hstep
      refine h.step_tasks rfl ?_
      intro x ht
      exact .inl ((ht.of_setAcking rfl rfl rfl).resolve_left (by simp [tasksOf]))
  · simp at hstep

variable [DecidableEq V]

theorem guarded_flusher {a : Label V} (hstep : durableStep cfg wal s (.flusher a) = some s') :
    Guarded wal s' := by
  simp only [durableStep] at hstep
  split_ifs at hstep with hmay
  obtain ⟨f, hnext, rfl⟩ := map_eq_some_iff.mp hstep
  have hmove := move_of_next hnext
  have hstored : ∀ t v, t ∉ s.deleted → AtLeast s.flusher.backend t v → AtLeast f.backend t v :=
    fun t v ht hat => atLeast_move hmove h.origin h.inBatch ht hat
  refine h.step ⟨refl _, hstored, ?_⟩ h.records ?_ ?_ ?_ ?_ (fun _ => .inl rfl)
    (fun _ hw => .inl hw)
  · intro t v complete ht hold
    exact ⟨hold.no_tombstone, hold.kept.imp_left (hstored t v ht)⟩
  · refine origin_move hmove ?_ h.origin
    rintro items rfl
    simp [flusherMay] at hmay
  · exact stageRule_move inBatch_rule hmove h.inBatch
  · exact fun p w hw => (ackList_move hmove p hw).imp id .inr
  · intro task ht
    left
    cases a with
    | ack => exact (ht.of_setAcking rfl rfl rfl).resolve_left (by simp [tasksOf])
    | _ => exact ht.of_eq rfl rfl rfl

theorem guarded_hset (hguard : protectedStep wal s (.hset c))
    (hstep : durableStep cfg wal s (.hset c) = some s') : Guarded wal s' := by
  simp only [durableStep] at hstep
  simp only [protectedStep] at hguard
  split at hstep
  · rename_i remove items item todo hpc
    rw [hpc] at hguard
    obtain ⟨done, hcall⟩ : SubmitOk wal s (.write remove items (item :: todo)) := hpc ▸ h.submits c
    split at hstep
    · -- Only a remove can have no record.
      rename_i htask
      cases hstep
      have hsafe : Safe wal s item true := by
        cases remove with
        | true => exact .inl (hcall.removes rfl item hcall.item_mem).2
        | false =>
          have hsome := hcall.saves rfl item hcall.item_mem
          simp only [submitTask, Bool.false_eq_true, if_false] at htask
          simp [htask] at hsome
      exact h.setSubmit ⟨done ++ [item], hcall.advance hsafe⟩
    · rename_i task htask
      cases hstep
      obtain ⟨payload, hvalid, rfl, htarget, hkind⟩ := submitTask_eq_some htask
      have hover : ∀ p, recordAt wal s.redis payload.target = some p →
          p.target = payload.target ∧
            (payload.operation = .save → p.version ≤ payload.version) := by
        intro p hp
        rw [htarget] at hp ⊢
        refine ⟨(hguard p hp).1, ?_⟩
        intro hsave
        rcases hkind with ⟨-, hop⟩ | ⟨hr, -, hversion⟩
        · simp [hop] at hsave
        · rw [hversion]
          exact (hguard p hp).2 hr
      have hrec : ∀ t v complete, t ∉ s.deleted →
          Recoverable wal s.redis s.flusher.backend t v complete →
          Recoverable wal (s.redis.hset (taskOf wal payload).shard (taskOf wal payload).target
            payload) s.flusher.backend t v complete := by
        intro t v complete ht hold
        refine hold.hset payload hover ?_
        rintro hop rfl
        rcases hkind with ⟨hr, -⟩ | ⟨-, hsave, -⟩
        · exact ht (htarget ▸ (hcall.removes hr item hcall.item_mem).2)
        · simp [hsave] at hop
      refine h.step_redis rfl
        (recordsOk_apply h.records (c := .hset (taskOf wal payload)) ⟨payload, hvalid, rfl⟩) hrec
        (fun _ ht => .inl (ht.of_eq rfl rfl rfl))
        (submits_setSubmit (.added remove items item todo) ?_ rfl)
      refine ⟨⟨done, hcall.split, hcall.removes, hcall.saves, ?_⟩, ?_⟩
      · intro w hw
        by_cases hdel : w.target ∈ s.deleted
        · exact .inl hdel
        · exact .inr (hrec _ _ _ hdel ((hcall.recorded w hw).resolve_left hdel))
      rcases hkind with ⟨hr, -⟩ | ⟨-, hop, hversion⟩
      · exact .inl (hcall.removes hr item hcall.item_mem).2
      · right
        rw [← htarget, ← hversion]
        exact recoverable_written payload hop
  · simp at hstep

theorem guarded_zadd (hstep : durableStep cfg wal s (.zadd c) = some s') : Guarded wal s' := by
  simp only [durableStep] at hstep
  split at hstep
  · rename_i remove items item todo hpc
    obtain ⟨task, htask, rfl⟩ := map_eq_some_iff.mp hstep
    obtain ⟨payload, hvalid, rfl, htarget, -⟩ := submitTask_eq_some htask
    obtain ⟨⟨done, hcall⟩, hitem⟩ : SubmitOk wal s (.added remove items item todo) :=
      hpc ▸ h.submits c
    refine h.step_redis rfl
      (recordsOk_apply h.records (c := .zadd (taskOf wal payload)) ⟨payload, hvalid, rfl⟩)
      (fun _ _ _ _ hold => hold.zadd _ _) (fun _ ht => .inl (ht.of_eq rfl rfl rfl))
      (submits_setSubmit (.write remove items todo) ?_ rfl)
    refine ⟨done ++ [item], CallOk.advance ⟨hcall.split, hcall.removes, hcall.saves, ?_⟩ ?_⟩
    · exact fun w hw => (hcall.recorded w hw).imp id fun hold => hold.zadd _ _
    · exact hitem.imp id fun hold => hold.complete htarget
  · simp at hstep

theorem guarded_push {timedOut : Bool} (hstep : pushStep cfg s c timedOut = some s') :
    Guarded wal s' := by
  simp only [pushStep] at hstep
  split at hstep
  · rename_i remove items hpc
    obtain ⟨done, hcall⟩ : SubmitOk wal s (.write remove items []) := hpc ▸ h.submits c
    obtain rfl : items = done := by simpa using hcall.split
    have haccepted : ∀ {s' : Durable V}, Preserves wal s s' →
        s'.accepted = (if remove then s.accepted else s.accepted ++ items) →
        ∀ w ∈ s'.accepted, w ∈ s.accepted ∨ Safe wal s' w true := by
      intro s' hpres hacc w hw
      rw [hacc] at hw
      split at hw
      · exact .inl hw
      · exact (mem_append.mp hw).imp id fun hnew => hpres.safe (hcall.recorded w hnew)
    split at hstep
    · cases hstep
      have hpres : Preserves wal s { s.accept c remove items with
          flusher := { s.flusher with
            dirty := if remove then s.flusher.dirty
              else rollbackPersistItems s.flusher.dirty items } } :=
        preserves_of_eq rfl rfl rfl
      exact h.step hpres h.records ⟨h.origin.journal, h.origin.owned⟩ h.inBatch
        (fun _ _ hw => .inl hw) (fun _ ht => .inl (ht.of_eq rfl rfl rfl))
        (submits_setSubmit (.returned true) trivial rfl) (haccepted hpres rfl)
    · obtain ⟨f, hnext, rfl⟩ := map_eq_some_iff.mp hstep
      have hmove := move_of_next hnext
      have hstored : ∀ t v, t ∉ s.deleted → AtLeast s.flusher.backend t v → AtLeast f.backend t v :=
        fun t v ht hat => atLeast_move hmove h.origin h.inBatch ht hat
      have hpres : Preserves wal s { s.accept c remove items with flusher := f } :=
        ⟨refl _, hstored,
          fun t v _ ht hold => ⟨hold.no_tombstone, hold.kept.imp_left (hstored t v ht)⟩⟩
      refine h.step hpres h.records ?_ (stageRule_move inBatch_rule hmove h.inBatch)
        (fun p w hw => (ackList_move hmove p hw).imp id .inr)
        (fun _ ht => .inl (ht.of_eq rfl rfl rfl))
        (submits_setSubmit (.returned true) trivial rfl) (haccepted hpres rfl)
      refine origin_move hmove ?_ h.origin
      intro pushed hpushed w hw hremove
      obtain rfl : items = pushed := Label.push.inj hpushed
      cases remove with
      | true => exact (hcall.removes rfl w hw).2
      | false =>
        have hsome := hcall.saves rfl w hw
        simp [writeTask, hremove] at hsome
  · simp at hstep

theorem guarded_ack (hstep : durableStep cfg wal s (.ack p) = some s') : Guarded wal s' := by
  simp only [durableStep] at hstep
  split at hstep
  · obtain ⟨tasks, htasks, rfl⟩ := map_eq_some_iff.mp hstep
    refine h.step_tasks rfl ?_
    intro task ht
    rcases ht.of_setAcking rfl rfl rfl with hnew | hold
    · exact .inr (h.taskOk_of_ackTasks htasks (tasksOf_ackCall_subset tasks hnew))
    · exact .inl hold
  · simp at hstep

theorem guarded_ackHdel {shard : Nat} (hguard : protectedStep wal s (.ackHdel p shard))
    (hstep : durableStep cfg wal s (.ackHdel p shard) = some s') : Guarded wal s' := by
  simp only [durableStep] at hstep
  simp only [protectedStep] at hguard
  split at hstep
  · rename_i todo hpc
    rw [hpc] at hguard
    have hholds : ∀ task ∈ todo, HoldsTask s task := fun task ht =>
      .acking p (by rw [hpc]; exact ht)
    split_ifs at hstep
    cases hstep
    refine h.step_redis rfl
      (recordsOk_apply h.records (c := .hdel shard (shardTargets shard todo)) trivial) ?_ ?_
      (fun _ => .inl rfl)
    · intro t v complete ht hold
      exact hold.hdel fun hshard hkey hrecord =>
        h.atLeast_of_shardTargets hholds hguard ht hshard hkey hrecord
    exact fun task ht => .inl ((ht.of_setAcking rfl rfl rfl).elim (hholds task) id)
  · simp at hstep

theorem guarded_ackZrem (hguard : protectedStep wal s (.ackZrem p))
    (hstep : durableStep cfg wal s (.ackZrem p) = some s') : Guarded wal s' := by
  simp only [durableStep] at hstep
  simp only [protectedStep] at hguard
  split at hstep
  · rename_i shard todo hpc
    rw [hpc] at hguard
    have hholds : ∀ task ∈ todo, HoldsTask s task := fun task ht =>
      .acking p (by rw [hpc]; exact ht)
    cases hstep
    refine h.step_redis rfl
      (recordsOk_apply h.records (c := .zrem shard (shardTargets shard todo)) trivial) ?_ ?_
      (fun _ => .inl rfl)
    · intro t v complete ht hold
      exact hold.zrem fun hshard hkey hrecord =>
        h.atLeast_of_shardTargets hholds hguard ht hshard hkey hrecord
    intro task ht
    rcases ht.of_setAcking rfl rfl rfl with hrest | hold
    · split at hrest
      · simp [tasksOf] at hrest
      · exact .inl (hholds task (mem_filter.mp hrest).1)
    · exact .inl hold
  · simp at hstep

theorem guarded_workerTake
    (hstep : durableStep cfg wal s (.workerTake i) = some s') : Guarded wal s' := by
  simp only [durableStep] at hstep
  split at hstep
  · rename_i task rest _ hqueue
    cases hstep
    refine h.step_tasks rfl ?_
    intro x hx
    refine .inl (hx.of_setWorker rfl rfl ?_ ?_)
    · intro j
      simp only
      rcases eq_or_ne j i with rfl | hne
      · rw [update_self, hqueue]
        exact subset_cons_self task rest
      · rw [update_of_ne hne]
        exact refl _
    · rintro half heq
      obtain ⟨rfl, -⟩ := Prod.mk.inj (some.inj heq)
      exact .queue i (hqueue ▸ mem_cons_self)
  · simp at hstep

theorem guarded_workerHdel (hguard : protectedStep wal s (.workerHdel i))
    (hstep : durableStep cfg wal s (.workerHdel i) = some s') : Guarded wal s' := by
  simp only [durableStep] at hstep
  split at hstep
  · rename_i task hworker
    cases hstep
    have hout := hguard task false hworker
    refine h.step_redis rfl
      (recordsOk_apply h.records (c := .hdel task.shard [task.target]) trivial) ?_ ?_
      (fun _ => .inl rfl)
    · intro t v complete ht hold
      exact hold.hdel fun hshard hkey hrecord => h.atLeast_of_task (.worker i false hworker) hout
        ht hshard (mem_singleton.mp hkey) hrecord
    intro x hx
    refine .inl (hx.of_setWorker rfl rfl (fun _ => refl _) ?_)
    rintro half heq
    obtain ⟨rfl, -⟩ := Prod.mk.inj (some.inj heq)
    exact .worker i false hworker
  · simp at hstep

theorem guarded_workerZrem (hguard : protectedStep wal s (.workerZrem i))
    (hstep : durableStep cfg wal s (.workerZrem i) = some s') : Guarded wal s' := by
  simp only [durableStep] at hstep
  split at hstep
  · rename_i task hworker
    cases hstep
    have hout := hguard task true hworker
    refine h.step_redis rfl
      (recordsOk_apply h.records (c := .zrem task.shard [task.target]) trivial) ?_ ?_
      (fun _ => .inl rfl)
    · intro t v complete ht hold
      exact hold.zrem fun hshard hkey hrecord => h.atLeast_of_task (.worker i true hworker) hout
        ht hshard (mem_singleton.mp hkey) hrecord
    · intro x hx
      exact .inl (hx.of_setWorker rfl rfl (fun _ => refl _) (by simp))
  · simp at hstep

theorem guarded_step {a} (hguard : protectedStep wal s a)
    (hstep : durableStep cfg wal s a = some s') : Guarded wal s' := by
  cases a with
  | flusher => exact guarded_flusher h hstep
  | submit =>
    exact guarded_submitStep h (by simp) (fun _ => hguard) hstep
  | submitRemove =>
    refine guarded_submitStep h ?_ (by simp) hstep
    intro _ w hw
    obtain ⟨item, -, rfl⟩ := mem_map.mp hw
    rfl
  | hset => exact guarded_hset h hguard hstep
  | zadd => exact guarded_zadd h hstep
  | writeError c =>
    have hfail : some (s.setSubmit c (.returned false)) = some s' → Guarded wal s' := by
      rintro heq
      cases heq
      exact h.setSubmit trivial
    simp only [durableStep] at hstep
    split at hstep
    · exact hfail hstep
    · exact hfail hstep
    · simp at hstep
  | push => exact guarded_push h hstep
  | ack => exact guarded_ack h hstep
  | enqueue => exact guarded_enqueue h hstep
  | ackHdel => exact guarded_ackHdel h hguard hstep
  | ackZrem => exact guarded_ackZrem h hguard hstep
  | ackError p =>
    have hfail : some (s.setAcking p (.finished false)) = some s' → Guarded wal s' := by
      rintro heq
      cases heq
      refine h.step_tasks rfl ?_
      intro task ht
      exact .inl ((ht.of_setAcking rfl rfl rfl).resolve_left (by simp [tasksOf]))
    simp only [durableStep] at hstep
    split at hstep
    · exact hfail hstep
    · exact hfail hstep
    · simp at hstep
  | workerTake => exact guarded_workerTake h hstep
  | workerHdel => exact guarded_workerHdel h hguard hstep
  | workerZrem => exact guarded_workerZrem h hguard hstep
  | workerError =>
    simp only [durableStep] at hstep
    split at hstep
    · cases hstep
      refine h.step_tasks rfl ?_
      intro x hx
      exact .inl (hx.of_setWorker rfl rfl (fun _ => refl _) (by simp))
    · simp at hstep
  | walStop =>
    simp only [durableStep] at hstep
    split_ifs at hstep
    cases hstep
    exact h.step_redis rfl h.records (fun _ _ _ _ hold => hold)
      (fun _ ht => .inl (ht.of_eq rfl rfl rfl)) (fun _ => .inl rfl)
  | expireSnapshot | expirePending => exact absurd hguard id

end Steps

theorem guarded_of_reach [DecidableEq V]
    (h : Reach (durableStep cfg wal) (Unstarted cfg wal) (protectedStep wal) s) :
    Guarded wal s := by
  refine h.invariant ?_ ?_
  · rintro s ⟨backend, redis, hbuilt, rfl⟩
    refine ⟨hbuilt.recordsOk, origin_initial cfg backend, fun _ => trivial, ?_, ?_,
      fun _ => trivial, by simp⟩
    · intro p w hw
      simp [initial, ackList] at hw
    rintro task (⟨p, hp⟩ | ⟨i, hi⟩ | ⟨i, half, hi⟩)
    · simp [tasksOf] at hp
    · simp at hi
    · simp at hi
  · intro s a s' hs hguard hstep
    exact guarded_step hs hguard hstep

end CubeCore.RecordGuardSteps
