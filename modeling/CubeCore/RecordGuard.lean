import CubeCore.RecoverableRecords

namespace CubeCore.RecordGuard

open SaveItems VersionStore FlusherSystem BatchOwnership Function List OperationOrigin SnapshotWal
open DurableCheckpoint RecoverableRecords

variable {V : Type}

variable {wal : WalConfig} {s s' : Durable V}

/-- The record under a key is of the same document and not newer than what was flushed. -/
def Outdated (r : Redis) (task : AckTask) : Prop :=
  ∀ p, r.snapshot task.shard task.target = some p →
    p.target = task.doc ∧ ∀ v, task.version = some v → p.version ≤ v

/-- `Submit` gets items the WAL can record, a record is overwritten by no older version of its
document, a key is deleted only while its record is outdated, and none expires. -/
def protectedStep (wal : WalConfig) (s : Durable V) : DurableLabel V → Prop
  | .submit _ freezable items =>
    ∀ item ∈ freezeSaveItems freezable items, (writeTask wal item).isSome = true
  | .hset c =>
    match s.submits c with
    | .write remove _ (item :: _) =>
      ∀ p, recordAt wal s.redis item.target = some p →
        p.target = item.target ∧ (remove = false → p.version ≤ item.version)
    | _ => True
  | .ackHdel p shard =>
    match s.acking p with
    | .direct todo => ∀ task ∈ todo, task.shard = shard → Outdated s.redis task
    | _ => True
  | .ackZrem p =>
    match s.acking p with
    | .directHalf shard todo => ∀ task ∈ todo, task.shard = shard → Outdated s.redis task
    | _ => True
  | .workerHdel i | .workerZrem i =>
    ∀ task half, s.workers i = some (task, half) → Outdated s.redis task
  | .expireSnapshot _ | .expirePending _ => False
  | _ => True

def Stored (s : Durable V) (t : Target) (v : Nat) : Prop :=
  t ∈ s.deleted ∨ AtLeast s.flusher.backend t v

def Safe (wal : WalConfig) (s : Durable V) (item : SaveItem V) (complete : Bool) : Prop :=
  item.target ∈ s.deleted ∨
    Recoverable wal s.redis s.flusher.backend item.target item.version complete

/-- What an acknowledgement is for has been stored. -/
def TaskOk (s : Durable V) (task : AckTask) : Prop :=
  task.doc ∈ s.deleted ∨
    ∃ v, task.version = some v ∧ AtLeast s.flusher.backend task.doc v

def tasksOf : AckPC → List AckTask
  | .enqueue todo | .direct todo | .directHalf _ todo => todo
  | _ => []

inductive HoldsTask (s : Durable V) (task : AckTask) : Prop
  | acking (p : Pid) : task ∈ tasksOf (s.acking p) → HoldsTask s task
  | queue (i : Nat) : task ∈ s.queues i → HoldsTask s task
  | worker (i : Nat) (half : Bool) : s.workers i = some (task, half) → HoldsTask s task

/-- A `Submit` or `SubmitRemove` call that has written the records of `done`. -/
structure CallOk (wal : WalConfig) (s : Durable V) (remove : Bool)
    (items done rest : List (SaveItem V)) : Prop where
  split : items = done ++ rest
  removes : remove = true → ∀ w ∈ items, w.isRemove = true ∧ w.target ∈ s.deleted
  saves : remove = false → ∀ w ∈ items, (writeTask wal w).isSome = true
  recorded : ∀ w ∈ done, Safe wal s w true

def SubmitOk (wal : WalConfig) (s : Durable V) : SubmitPC V → Prop
  | .write remove items todo => ∃ done, CallOk wal s remove items done todo
  | .added remove items item todo =>
    (∃ done, CallOk wal s remove items done (item :: todo)) ∧ Safe wal s item false
  | _ => True

structure Guarded (wal : WalConfig) (s : Durable V) : Prop where
  records : RecordsOk wal s.redis
  origin : Origin (removesFrom s.deleted) s.flusher
  inBatch : ∀ p, InBatch (s.flusher.procs p)
  acks : ∀ p, ∀ w ∈ ackList (s.flusher.procs p), Stored s w.target w.version
  tasks : ∀ task, HoldsTask s task → TaskOk s task
  submits : ∀ c, SubmitOk wal s (s.submits c)
  accepted : ∀ w ∈ s.accepted, Safe wal s w true

/-- A step after which everything stored or recoverable still is. -/
structure Preserves (wal : WalConfig) (s s' : Durable V) : Prop where
  deleted : s.deleted ⊆ s'.deleted
  stored : ∀ t v, t ∉ s'.deleted → AtLeast s.flusher.backend t v →
    AtLeast s'.flusher.backend t v
  recoverable : ∀ t v complete, t ∉ s'.deleted →
    Recoverable wal s.redis s.flusher.backend t v complete →
    Recoverable wal s'.redis s'.flusher.backend t v complete

theorem preserves_of_eq (hdeleted : s'.deleted = s.deleted)
    (hbackend : s'.flusher.backend = s.flusher.backend) (hredis : s'.redis = s.redis) :
    Preserves wal s s' := by
  refine ⟨hdeleted ▸ List.Subset.refl _, ?_, ?_⟩
  · intro t v _ hat
    rwa [hbackend]
  · intro t v complete _ hold
    rwa [hbackend, hredis]

variable {t : Target} {v : Nat}

theorem Preserves.or (h : Preserves wal s s') (hold : t ∈ s.deleted ∨ P)
    (hkeeps : t ∉ s'.deleted → P → Q) : t ∈ s'.deleted ∨ Q := by
  by_cases ht : t ∈ s'.deleted
  · exact .inl ht
  · exact hold.imp (fun hdel => h.deleted hdel) (hkeeps ht)

theorem Preserves.storedOk (h : Preserves wal s s') (hstored : Stored s t v) : Stored s' t v :=
  h.or hstored fun ht hat => h.stored t v ht hat

variable {item : SaveItem V} {task : AckTask}

theorem Preserves.safe (h : Preserves wal s s') (hsafe : Safe wal s item complete) :
    Safe wal s' item complete :=
  h.or hsafe fun ht hrec => h.recoverable _ _ _ ht hrec

theorem Preserves.taskOk (h : Preserves wal s s') (hok : TaskOk s task) : TaskOk s' task :=
  h.or hok fun ht ⟨v, hv, hat⟩ => ⟨v, hv, h.stored _ v ht hat⟩

variable {remove : Bool} {items done : List (SaveItem V)}

theorem Preserves.callOk (h : Preserves wal s s') (hcall : CallOk wal s remove items done rest) :
    CallOk wal s' remove items done rest where
  __ := hcall
  removes := fun hr w hw => ⟨(hcall.removes hr w hw).1, h.deleted (hcall.removes hr w hw).2⟩
  recorded := fun w hw => h.safe (hcall.recorded w hw)

theorem Preserves.submitOk (h : Preserves wal s s') (hok : SubmitOk wal s pc) :
    SubmitOk wal s' pc := by
  cases pc with
  | idle | returned => trivial
  | write =>
    obtain ⟨done, hcall⟩ := hok
    exact ⟨done, h.callOk hcall⟩
  | added =>
    obtain ⟨⟨done, hcall⟩, hsafe⟩ := hok
    exact ⟨⟨done, h.callOk hcall⟩, h.safe hsafe⟩

theorem origin_mono (hsub : xs ⊆ ys) (h : Origin (removesFrom xs) f) : Origin (removesFrom ys) f :=
  ⟨fun x hx hr => hsub (h.journal x hx hr), fun p x hx hr => hsub (h.owned p x hx hr)⟩

theorem Guarded.step (h : Guarded wal s) (hpres : Preserves wal s s')
    (hrecords : RecordsOk wal s'.redis) (horigin : Origin (removesFrom s'.deleted) s'.flusher)
    (hin : ∀ p, InBatch (s'.flusher.procs p))
    (hacks : ∀ p, ∀ w ∈ ackList (s'.flusher.procs p),
      w ∈ ackList (s.flusher.procs p) ∨ Stored s' w.target w.version)
    (htasks : ∀ task, HoldsTask s' task → HoldsTask s task ∨ TaskOk s' task)
    (hsubmits : ∀ c, s'.submits c = s.submits c ∨ SubmitOk wal s' (s'.submits c))
    (haccepted : ∀ w ∈ s'.accepted, w ∈ s.accepted ∨ Safe wal s' w true) :
    Guarded wal s' where
  records := hrecords
  origin := horigin
  inBatch := hin
  acks := fun p w hw => (hacks p w hw).elim (fun hold => hpres.storedOk (h.acks p w hold)) id
  tasks := fun task htask =>
    (htasks task htask).elim (fun hold => hpres.taskOk (h.tasks task hold)) id
  submits := by
    intro c
    rcases hsubmits c with hsame | hok
    · rw [hsame]
      exact hpres.submitOk (h.submits c)
    · exact hok
  accepted := fun w hw =>
    (haccepted w hw).elim (fun hold => hpres.safe (h.accepted w hold)) id

theorem Guarded.step_redis (h : Guarded wal s) {redis walRunning queues workers acking submits}
    (hs : s' = { s with redis, walRunning, queues, workers, acking, submits })
    (hrecords : RecordsOk wal redis)
    (hrec : ∀ t v complete, t ∉ s.deleted → Recoverable wal s.redis s.flusher.backend t v complete →
      Recoverable wal redis s.flusher.backend t v complete)
    (htasks : ∀ task, HoldsTask s' task → HoldsTask s task ∨ TaskOk s task)
    (hsubmits : ∀ c, s'.submits c = s.submits c ∨ SubmitOk wal s' (s'.submits c)) :
    Guarded wal s' := by
  subst hs
  exact h.step ⟨List.Subset.refl _, fun _ _ _ => id, hrec⟩ hrecords h.origin h.inBatch
    (fun _ _ => .inl) htasks hsubmits fun _ => .inl

theorem Guarded.step_tasks (h : Guarded wal s) (hs : s' = { s with queues, workers, acking })
    (htasks : ∀ task, HoldsTask s' task → HoldsTask s task ∨ TaskOk s task) : Guarded wal s' := by
  subst hs
  exact h.step_redis rfl h.records (fun _ _ _ _ => id) htasks fun _ => .inl rfl

variable {p : Pid}

theorem mem_tasksOf_update (h : task ∈ tasksOf (update acking p pc q)) :
    task ∈ tasksOf pc ∨ task ∈ tasksOf (acking q) := by
  rcases eq_or_ne q p with rfl | hne
  · rw [update_self] at h
    exact .inl h
  · rw [update_of_ne hne] at h
    exact .inr h

theorem HoldsTask.of_setAcking (h : HoldsTask s' task) (hacking : s'.acking = update s.acking p pc)
    (hqueues : s'.queues = s.queues) (hworkers : s'.workers = s.workers) :
    task ∈ tasksOf pc ∨ HoldsTask s task := by
  cases h with
  | acking q hq => exact (mem_tasksOf_update (hacking ▸ hq)).imp id (.acking q)
  | queue i hi => exact .inr (.queue i (hqueues ▸ hi))
  | worker i half hi => exact .inr (.worker i half (hworkers ▸ hi))

theorem HoldsTask.of_eq (h : HoldsTask s' task) (hacking : s'.acking = s.acking)
    (hqueues : s'.queues = s.queues) (hworkers : s'.workers = s.workers) : HoldsTask s task := by
  cases h with
  | acking q hq => exact .acking q (hacking ▸ hq)
  | queue i hi => exact .queue i (hqueues ▸ hi)
  | worker i half hi => exact .worker i half (hworkers ▸ hi)

theorem submits_setSubmit (pc : SubmitPC V) (hpc : SubmitOk wal s' pc)
    (hsubmits : s'.submits = update s.submits c pc) :
    ∀ c', s'.submits c' = s.submits c' ∨ SubmitOk wal s' (s'.submits c') := by
  intro c'
  rw [hsubmits]
  rcases eq_or_ne c' c with rfl | hne
  · rw [update_self]
    exact .inr hpc
  · rw [update_of_ne hne]
    exact .inl rfl

theorem Guarded.setSubmit (h : Guarded wal s) (hpc : SubmitOk wal s pc) :
    Guarded wal (s.setSubmit c pc) := by
  have hpres : Preserves wal s (s.setSubmit c pc) := preserves_of_eq rfl rfl rfl
  exact h.step_redis rfl h.records (fun _ _ _ _ => id) (fun _ ht => .inl (ht.of_eq rfl rfl rfl))
    (submits_setSubmit pc (hpres.submitOk hpc) rfl)

theorem submitTask_eq_some {task : WriteTask} (h : submitTask wal remove item = some task) :
    ∃ payload, payload.valid = true ∧ task = taskOf wal payload ∧ payload.target = item.target ∧
      ((remove = true ∧ payload.operation = .delete) ∨
        (remove = false ∧ payload.operation = .save ∧ payload.version = item.version)) := by
  cases remove with
  | true =>
    obtain ⟨payload, hvalid, htask, hop, htarget⟩ := deleteTask_eq_some h
    exact ⟨payload, hvalid, htask, htarget, .inl ⟨rfl, hop⟩⟩
  | false =>
    obtain ⟨payload, hvalid, htask, hop, htarget, hversion⟩ := writeTask_eq_some h
    exact ⟨payload, hvalid, htask, htarget, .inr ⟨rfl, hop, hversion⟩⟩

theorem CallOk.advance (h : CallOk wal s remove items done (item :: todo))
    (hitem : Safe wal s item true) :
    CallOk wal s remove items (done ++ [item]) todo where
  __ := h
  split := by rw [h.split, append_assoc, singleton_append]
  recorded := by
    rw [forall_mem_append, forall_mem_singleton]
    exact ⟨h.recorded, hitem⟩

theorem CallOk.item_mem (h : CallOk wal s remove items done (item :: todo)) : item ∈ items := by
  rw [h.split]
  exact mem_append_right _ mem_cons_self

theorem Guarded.taskOk_of_ackTasks (h : Guarded wal s) {tasks}
    (htasks : ackTasks wal (s.flusher.procs p) = some tasks) (htask : task ∈ tasks) :
    TaskOk s task := by
  have hdoc : ∀ {version : Option Nat} {item : SaveItem V},
      ackTask wal version item = some task → task.doc = item.target ∧ task.version = version := by
    intro version item heq
    simp only [ackTask] at heq
    split_ifs at heq
    cases heq
    exact ⟨rfl, rfl⟩
  have hacks := h.acks p
  cases hpc : s.flusher.procs p with
  | ackSaves =>
    rw [hpc] at htasks hacks
    cases htasks
    obtain ⟨w, hw, heq⟩ := mem_filterMap.mp htask
    obtain ⟨hdoc, hversion⟩ := hdoc heq
    refine (hacks w hw).imp ?_ ?_
    · intro hdel
      rwa [hdoc]
    · intro hat
      exact ⟨w.version, hversion, hdoc ▸ hat⟩
  | ackRemoves _ _ todo =>
    rw [hpc] at htasks
    cases htasks
    obtain ⟨r, hr, heq⟩ := mem_filterMap.mp htask
    left
    rw [(hdoc heq).1]
    exact group_targets_deleted h.origin h.inBatch hr (.inr ⟨todo, hpc⟩)
  | _ =>
    rw [hpc] at htasks
    simp [ackTasks] at htasks

theorem Guarded.atLeast_of_task (h : Guarded wal s) (htask : HoldsTask s task)
    (hout : Outdated s.redis task) (ht : t ∉ s.deleted)
    (hshard : redisSnapshotWALShard (redisSnapshotWALTarget t) wal.shards = task.shard)
    (hkey : redisSnapshotWALTarget t = task.target) (hrecord : HasRecord wal s.redis t v) :
    AtLeast s.flusher.backend t v := by
  obtain ⟨p, hp, htarget, -, hv⟩ := hrecord
  rw [recordAt, hshard, hkey] at hp
  obtain ⟨hdoc, hversion⟩ := hout p hp
  obtain rfl : task.doc = t := hdoc.symm.trans htarget
  rcases h.tasks task htask with hdel | ⟨v', hv', hat⟩
  · exact absurd hdel ht
  · exact hat.le (Nat.le_trans hv (hversion v' hv'))

theorem Guarded.atLeast_of_shardTargets (h : Guarded wal s)
    (hholds : ∀ task ∈ todo, HoldsTask s task)
    (hout : ∀ task ∈ todo, task.shard = shard → Outdated s.redis task) (ht : t ∉ s.deleted)
    (hshard : redisSnapshotWALShard (redisSnapshotWALTarget t) wal.shards = shard)
    (hkey : redisSnapshotWALTarget t ∈ shardTargets shard todo)
    (hrecord : HasRecord wal s.redis t v) : AtLeast s.flusher.backend t v := by
  simp only [shardTargets, mem_map, mem_filter, decide_eq_true_eq] at hkey
  obtain ⟨task, ⟨hmem, hat⟩, heq⟩ := hkey
  exact h.atLeast_of_task (hholds task hmem) (hout task hmem hat) ht (hshard.trans hat.symm)
    heq.symm hrecord

theorem HoldsTask.of_setWorker (h : HoldsTask s' task)
    (hworkers : s'.workers = update s.workers i current) (hacking : s'.acking = s.acking)
    (hqueues : ∀ j, s'.queues j ⊆ s.queues j)
    (hcurrent : ∀ half, current = some (task, half) → HoldsTask s task) : HoldsTask s task := by
  cases h with
  | acking q hq => exact .acking q (hacking ▸ hq)
  | queue j hj => exact .queue j (hqueues j hj)
  | worker j half hj =>
    rw [hworkers] at hj
    rcases eq_or_ne j i with rfl | hne
    · rw [update_self] at hj
      exact hcurrent half hj
    · rw [update_of_ne hne] at hj
      exact .worker j half hj

end CubeCore.RecordGuard
