import CubeCore.FlushBarrier

namespace CubeCore.Tombstones

open TransitionSystem SaveItems JournalQueue BatchDedup KeptOperations VersionStore FlusherSystem
open FlusherMoves Option List Function BatchOwnership OperationAccounting OperationOrigin
open FlushBarrier

variable {V : Type}

def EndsInRemove (t : Target) (ops : List (SaveItem V)) : Prop :=
  ∃ r, lastOp t ops = some r ∧ r.isRemove = true

def heroRemoval : SaveItem Nat :=
  .full ⟨"db", .global, "hero", 7⟩ 0 []

/-- A worker holds a save while another executes the later remove; the save brings the document
back. -/
theorem save_after_remove_resurrects :
    ∃ s : State Nat, Reach (next twoWorkers) (Fresh twoWorkers) anyStep s ∧
      EndsInRemove heroSave.target s.admitted ∧ s.journal.entries = [] ∧
      s.inFlight = 0 ∧ s.backend heroSave.target ≠ none := by
  refine exists_reach_imp (P := fun s =>
      lastOp heroSave.target s.admitted = some (heroRemoval.stamp 1) ∧ s.journal.entries = [] ∧
      s.inFlight = 0 ∧ (s.backend heroSave.target).isSome = true)
    (exists_of_anyRun ⟨fun _ => none, rfl⟩
      [.start, .push [heroSave], .push [heroRemoval], .take (.worker 0), .take (.worker 1),
        .remove (.worker 1) 0 .ok, .finish (.worker 1), .notify (.worker 1),
        .save (.worker 0) (.results []), .finish (.worker 0), .notify (.worker 0)]
      (by decide +kernel)) ?_
  rintro s hreach ⟨hlast, hempty, hidle, hdoc⟩
  exact ⟨⟨_, hlast, rfl⟩, hempty, hidle, isSome_iff_ne_none.mp hdoc⟩

/-- Some goroutine still has a save of `t` to write or to put back. -/
def OwnsSave (s : State V) (t : Target) : Prop :=
  ∃ p, ∃ w ∈ ownedOps (s.procs p), w.isRemove = false ∧ w.target = t

/-- A batch that ends in a remove is not taken while a goroutine has a save of the document, a write
fails only in a batch without removes, and no batch meets a closed journal or is rolled back. -/
def orderedStep (cfg : Config V) (s : State V) : Label V → Prop
  | .take _ => ∀ t, EndsInRemove t (opsOf (s.journal.tryPopBatch cfg.batchSize).1) →
      ¬ OwnsSave s t
  | .save p outcome => clean outcome ∨
      ∀ batch todo, s.procs p = .saving batch todo → batch.removes = []
  | .requeue _ _ => s.journal.closed = false
  | .rollbackPending => False
  | _ => True

def RemovesTarget (removes : List (RemoveKey × List RemoveId)) (t : Target) : Prop :=
  ∃ group ∈ removes, ∃ r ∈ group.2, group.1.target r.id = t

/-- The goroutine will execute a remove of `t` or put it back. -/
def PendingRemove (t : Target) : PC V → Prop
  | .saving batch _ => RemovesTarget batch.removes t
  | .ackSaves batch _ failed _ => failed = false ∧ RemovesTarget batch.removes t
  | .removing _ todo | .ackRemoves _ _ todo => RemovesTarget todo t
  | .requeue entries => ∃ x ∈ opsOf entries, x.isRemove = true ∧ x.target = t
  | _ => False

/-- No save of `t` is left anywhere, and `t` is removed or about to be. -/
structure Settled (s : State V) (t : Target) : Prop where
  journal : ∀ x ∈ opsOf s.journal.entries, x.target ≠ t
  noSave : ¬ OwnsSave s t
  gone : s.backend t = none ∨ ∃ p, PendingRemove t (s.procs p)

def Deleted (s : State V) (t : Target) : Prop :=
  EndsInRemove t (opsOf s.journal.entries) ∨ Settled s t

variable {t : Target}

theorem RemovesTarget.subset (h : RemovesTarget xs t) (hsub : xs ⊆ ys) : RemovesTarget ys t := by
  obtain ⟨group, hgroup, hr⟩ := h
  exact ⟨group, hsub hgroup, hr⟩

variable {ys : List (SaveItem V)}

theorem endsInRemove_append (h : EndsInRemove t (xs ++ ys)) :
    EndsInRemove t ys ∨ (EndsInRemove t xs ∧ ∀ y ∈ ys, y.target ≠ t) := by
  obtain ⟨r, hr, hrem⟩ := h
  rw [lastOp_append] at hr
  cases hys : lastOp t ys with
  | some =>
    rw [hys] at hr
    exact .inl ⟨r, hys.trans hr, hrem⟩
  | none =>
    rw [hys] at hr
    exact .inr ⟨⟨r, hr, hrem⟩, lastOp_eq_none_iff.mp hys⟩

theorem endsInRemove_append_right (xs : List (SaveItem V)) (h : EndsInRemove t ys) :
    EndsInRemove t (xs ++ ys) := by
  obtain ⟨r, hr, hrem⟩ := h
  exact ⟨r, by rw [lastOp_append, hr, some_or], hrem⟩

theorem endsInRemove_append_left (h : EndsInRemove t xs) (hys : ∀ y ∈ ys, y.target ≠ t) :
    EndsInRemove t (xs ++ ys) := by
  obtain ⟨r, hr, hrem⟩ := h
  exact ⟨r, by rw [lastOp_append, lastOp_eq_none_iff.mpr hys, none_or, hr], hrem⟩

theorem endsInRemove_of_mem {x : SaveItem V} (hx : x ∈ ops) (htarget : x.target = t)
    (hsaves : ∀ y ∈ ops, y.target = t → y.isRemove = true) : EndsInRemove t ops := by
  cases hlast : lastOp t ops with
  | none => exact absurd htarget (lastOp_eq_none_iff.mp hlast x hx)
  | some l =>
    obtain ⟨hl, hlt⟩ := mem_of_lastOp hlast
    exact ⟨l, hlast, hsaves l hl hlt⟩

variable {s : State V}

theorem Settled.owned (h : Settled s t) (p : Pid) :
    ∀ w ∈ ownedOps (s.procs p), w.isRemove = false → w.target ≠ t :=
  fun w hw hsave htarget => h.noSave ⟨p, w, hw, hsave, htarget⟩

variable {s' : State V} {p : Pid} {pc : PC V}

theorem Settled.update (h : Settled s t) (hprocs : s'.procs = update s.procs p pc)
    (hjournal : ∀ x ∈ opsOf s'.journal.entries, x.target ≠ t)
    (hsave : ∀ w ∈ ownedOps pc, w.isRemove = false → w.target ≠ t)
    (hdoc : s.backend t = none → s'.backend t = none)
    (hpend : PendingRemove t (s.procs p) → PendingRemove t pc ∨ s'.backend t = none) :
    Settled s' t := by
  refine ⟨hjournal, ?_, ?_⟩
  · rintro ⟨q, w, hw, hws, hwt⟩
    rw [hprocs] at hw
    rcases eq_or_ne q p with rfl | hne
    · rw [update_self] at hw
      exact hsave w hw hws hwt
    · rw [update_of_ne hne] at hw
      exact h.owned q w hw hws hwt
  rcases h.gone with hnone | ⟨q, hq⟩
  · exact .inl (hdoc hnone)
  rcases eq_or_ne q p with rfl | hne
  · rcases hpend hq with hpc | hnone
    · refine .inr ⟨q, ?_⟩
      rwa [hprocs, update_self]
    · exact .inl hnone
  · refine .inr ⟨q, ?_⟩
    rwa [hprocs, update_of_ne hne]

theorem not_pendingRemove_of_free (h : holdsBatch pc = false) : ¬ PendingRemove t pc := by
  cases pc <;> first | exact id | simp [holdsBatch] at h

variable {batch : Batch V}

theorem pendingRemove_continueRemoves (h : RemovesTarget todo t) :
    PendingRemove t (continueRemoves batch todo) := by
  simp only [continueRemoves]
  split_ifs with hnil
  · obtain ⟨group, hgroup, -⟩ := h
    rw [hnil] at hgroup
    simp at hgroup
  · exact h

variable {todo : List (SaveItem V)}

theorem pendingRemove_continueSaves (h : RemovesTarget batch.removes t) :
    PendingRemove t (continueSaves batch todo) := by
  cases todo with
  | nil => exact pendingRemove_continueRemoves h
  | cons => exact h

theorem pendingRemove_afterSaves (h : PendingRemove t (.ackSaves batch todo failed acks)) :
    PendingRemove t (afterSaves batch todo failed) := by
  obtain ⟨rfl, hremoves⟩ := h
  exact pendingRemove_continueSaves hremoves

theorem owned_dedup_ne (h : (tablesOf (opsOf entries)).saveMap.lookup t = none) :
    ∀ w ∈ ownedOps (continueSaves (dedup entries) (dedup entries).saves),
      w.isRemove = false → w.target ≠ t := by
  rintro w hw hsave rfl
  rw [ownedOps_continueSaves] at hw
  rcases mem_append.mp hw with hsaves | hremoves
  · split at hsaves
    · simp at hsaves
    · rw [mem_saves_iff.mp hsaves] at h
      simp at h
  · obtain ⟨group, -, r, -, rfl⟩ := mem_removeOps.mp hremoves
    simp at hsave

theorem saveMap_lookup_none {ops : List (SaveItem V)} (h : ∀ x ∈ ops, x.target ≠ t) :
    (tablesOf ops).saveMap.lookup t = none := by
  rw [eq_none_iff_forall_ne_some]
  intro w hw
  obtain ⟨-, -, x, hx, -, htarget⟩ := saveMap_provenance hw
  exact h x hx htarget

variable {cfg : Config V}

theorem deleted_take (hcan : canTake cfg s p = true) (hguard : orderedStep cfg s (.take p))
    (h : Deleted s t) :
    Deleted { s.setPc p (continueSaves (dedup (s.journal.tryPopBatch cfg.batchSize).1)
        (dedup (s.journal.tryPopBatch cfg.batchSize).1).saves) with
      journal := (s.journal.tryPopBatch cfg.batchSize).2
      inFlight := s.inFlight + 1 } t := by
  have hops := opsOf_tryPopBatch s.journal cfg.batchSize
  have hfree := holdsBatch_of_not_busy (canTake_idle hcan).1
  rcases h with hend | hset
  · rw [hops] at hend
    rcases endsInRemove_append hend with hrest | ⟨hbatch, hrest⟩
    · exact .inl hrest
    -- the remove that decides the fate of `t` is taken, and no save of it is out
    have hnone := hguard t hbatch
    obtain ⟨r, hlast, hremove⟩ := hbatch
    obtain ⟨hlook, hholds⟩ := dedup_last_remove hlast hremove
    refine .inr ⟨hrest, ?_, .inr ⟨p, ?_⟩⟩
    · rintro ⟨q, w, hw, hws, hwt⟩
      simp only [State.setPc] at hw
      rcases eq_or_ne q p with rfl | hne
      · rw [update_self] at hw
        exact owned_dedup_ne hlook w hw hws hwt
      · rw [update_of_ne hne] at hw
        exact hnone ⟨q, w, hw, hws, hwt⟩
    simp only [State.setPc, update_self]
    apply pendingRemove_continueSaves
    obtain ⟨group, hgroup, x, hx, hxt, -⟩ := holdsRemove_dedup_iff.mpr hholds
    exact ⟨group, hgroup, x, hx, hxt⟩
  · have hnone := hset.journal
    rw [hops] at hnone
    refine .inr (hset.update rfl (fun x hx => hnone x (mem_append_right _ hx)) ?_ id ?_)
    · exact owned_dedup_ne (saveMap_lookup_none fun x hx => hnone x (mem_append_left _ hx))
    · exact fun hpend => absurd hpend (not_pendingRemove_of_free hfree)

theorem flushChunk_settled (hbase : Base s) (h : Settled s t)
    (hpc : s.procs p = .saving batch todo) (fails : List Bool) :
    (flushChunk cfg s.backend (todo.take (chunkLength cfg todo)) fails).1 t = s.backend t := by
  refine flushChunk_other cfg s.backend ?_ fails
  intro w hw
  have hin := hbase.inBatch p
  have hstage := hbase.staged p
  rw [hpc] at hin hstage
  have hmem := hin (mem_of_mem_take hw)
  refine h.owned p w ?_ (hstage w hmem).1
  rw [hpc]
  exact mem_append_left _ hmem

theorem settled_save (hbase : Base s) (hguard : orderedStep cfg s (.save p (.results fails)))
    (hpc : s.procs p = .saving batch todo)
    (hreply : reply = flushChunk cfg s.backend (todo.take (chunkLength cfg todo)) fails)
    (hnew : pc = afterSaves batch (todo.drop (chunkLength cfg todo)) (!(rejected reply.2).isEmpty) ∨
      pc = .ackSaves batch (todo.drop (chunkLength cfg todo)) (!(rejected reply.2).isEmpty)
        (acked reply.2)) (h : Settled s t) :
    Settled { s.setPc p pc with
      backend := reply.1, dirty := dirty, writes := s.writes ++ reply.2 } t := by
  have howned := h.owned p
  rw [hpc] at howned
  refine h.update rfl h.journal ?_ ?_ ?_
  · intro w hw
    refine howned w ?_
    rcases hnew with rfl | rfl
    · rw [ownedOps_afterSaves _ _ _ []] at hw
      exact ownedOps_ackSaves_subset _ _ todo _ _ hw
    · exact ownedOps_ackSaves_subset _ _ todo _ _ hw
  · intro hnone
    rw [← hnone, hreply]
    exact flushChunk_settled hbase h hpc fails
  · intro hpend
    rw [hpc] at hpend
    have hclean : true ∉ fails := by
      rcases hguard with hclean | hnil
      · exact hclean
      · obtain ⟨group, hgroup, -⟩ := hpend
        rw [hnil batch todo hpc] at hgroup
        simp at hgroup
    have hack : PendingRemove t (.ackSaves batch (todo.drop (chunkLength cfg todo))
        (!(rejected reply.2).isEmpty) (acked reply.2)) :=
      ⟨by simp [hreply, flushChunk_rejected cfg s.backend _ hclean], hpend⟩
    rcases hnew with rfl | rfl
    · exact .inl (pendingRemove_afterSaves hack)
    · exact .inl hack

theorem settled_remove {todo} {group} (hpc : s.procs p = .removing batch todo)
    (hgroup : todo[i]? = some group) (hnew : pc = continueRemoves batch (todo.eraseIdx i) ∨
      pc = .ackRemoves batch group (todo.eraseIdx i)) (h : Settled s t) :
    Settled { s.setPc p pc with
      backend := VersionStore.remove s.backend (group.2.map fun r => group.1.target r.id)
      removed := s.removed ++ group.2.map fun r => (group.1.target r.id, r.stamps) } t := by
  have howned := h.owned p
  rw [hpc] at howned
  refine h.update rfl h.journal ?_ ?_ ?_
  · intro w hw
    refine howned w ?_
    rcases hnew with rfl | rfl
    · exact ownedOps_continueRemoves_subset _ _ hw
    · exact hw
  · intro hnone
    simp only [VersionStore.remove]
    split
    · rfl
    · exact hnone
  · intro hpend
    rw [hpc] at hpend
    obtain ⟨g, hg, r, hr, hrt⟩ := hpend
    obtain ⟨j, hj⟩ := mem_iff_getElem?.mp hg
    rcases eq_or_ne j i with rfl | hne
    · obtain rfl : g = group := some.inj (hj.symm.trans hgroup)
      refine .inr (remove_of_mem s.backend ?_)
      exact mem_map.mpr ⟨r, hr, hrt⟩
    have hrest : RemovesTarget (todo.eraseIdx i) t :=
      ⟨g, mem_eraseIdx_iff_getElem?.mpr ⟨j, hne, hj⟩, r, hr, hrt⟩
    rcases hnew with rfl | rfl
    · exact .inl (pendingRemove_continueRemoves hrest)
    · exact .inl hrest

theorem deleted_requeue {entries order} (hopen : s.journal.closed = false)
    (hpc : s.procs p = .requeue entries) (hperm : order.Perm entries) (h : Deleted s t) :
    Deleted { s.setPc p (.finish true) with
      journal := (s.journal.pushFront order).1 } t := by
  have hops := Journal.opsOf_pushFront hopen order
  rcases h with hend | hset
  · refine .inl ?_
    simp only [hops]
    exact endsInRemove_append_right _ hend
  have howned := hset.owned p
  rw [hpc] at howned
  by_cases hmem : ∃ x ∈ opsOf order, x.target = t
  · -- no save of `t` is in the batch, so the batch brings back a remove
    obtain ⟨x, hx, hxt⟩ := hmem
    refine .inl ?_
    simp only [hops]
    refine endsInRemove_append_left (endsInRemove_of_mem hx hxt ?_) hset.journal
    intro y hy hyt
    cases hrem : y.isRemove with
    | true => rfl
    | false => exact absurd hyt (howned y ((mem_opsOf_of_perm hperm).mp hy) hrem)
  · simp only [not_exists, not_and] at hmem
    refine .inr (hset.update rfl ?_ (by simp [ownedOps]) id ?_)
    · simp only [hops]
      rw [forall_mem_append]
      exact ⟨hmem, hset.journal⟩
    intro hpend
    rw [hpc] at hpend
    obtain ⟨x, hx, -, hxt⟩ := hpend
    exact absurd hxt (hmem x ((mem_opsOf_of_perm hperm).mpr hx))

theorem Deleted.keep (h : Deleted s t) (hprocs : s'.procs = update s.procs p pc)
    (hjournal : s'.journal.entries = s.journal.entries) (hbackend : s'.backend = s.backend)
    (hsave : ∀ w ∈ ownedOps pc, w.isRemove = false → w ∈ ownedOps (s.procs p))
    (hpend : PendingRemove t (s.procs p) → PendingRemove t pc) : Deleted s' t := by
  rcases h with hend | hset
  · exact .inl (by rw [hjournal]; exact hend)
  refine .inr (hset.update hprocs (by rw [hjournal]; exact hset.journal) ?_ ?_ ?_)
  · exact fun w hw hws => hset.owned p w (hsave w hw hws) hws
  · intro hnone
    rwa [hbackend]
  · exact fun hp => .inl (hpend hp)

theorem Deleted.keep_free (h : Deleted s t) (hprocs : s'.procs = update s.procs p pc)
    (hjournal : s'.journal.entries = s.journal.entries) (hbackend : s'.backend = s.backend)
    (hfree : ∀ t, ¬ PendingRemove t (s.procs p)) (hnew : ownedOps pc = []) : Deleted s' t :=
  h.keep hprocs hjournal hbackend (by simp [hnew]) fun hp => absurd hp (hfree t)

theorem deleted_move {a : Label V} (hmove : Move cfg s a s') (hbase : Base s)
    (hguard : orderedStep cfg s a) (hpush : ∀ items, a ≠ .push items) (h : Deleted s t) :
    Deleted s' t := by
  have free : ∀ {p : Pid}, holdsBatch (s.procs p) = false → ∀ t, ¬ PendingRemove t (s.procs p) :=
    fun hp _ => not_pendingRemove_of_free hp
  cases hmove with
  | still hwork hprocs =>
    rcases h with hend | hset
    · exact .inl (by rw [hwork.entries]; exact hend)
    refine .inr ⟨by rw [hwork.entries]; exact hset.journal, ?_, ?_⟩
    · simp only [OwnsSave, hprocs]
      exact hset.noSave
    · rw [hwork.backend, hprocs]
      exact hset.gone
  | quiet _ _ hwork hprocs hbusy hbusy' =>
    exact h.keep_free hprocs hwork.entries hwork.backend
      (free (holdsBatch_of_not_busy hbusy)) (ownedOps_of_not_busy hbusy')
  | idleStop =>
    refine h.imp (fun hend => ?_) fun hset => ⟨?_, hset.noSave, hset.gone⟩
    · split <;> exact hend
    · split <;> exact hset.journal
  | wait p hpc | receive p hpc => exact h.keep_free rfl rfl rfl (free (by rw [hpc]; rfl)) rfl
  | notify p failed hpc =>
    exact h.keep_free rfl rfl rfl (free (by rw [hpc]; rfl))
      (ownedOps_of_not_busy (afterBatch_idle p failed).1)
  | push items => exact absurd rfl (hpush items)
  | take p hcan => exact deleted_take hcan hguard h
  | save p batch todo fails dirty reply pc hpc hreply hnew =>
    exact h.imp_right (settled_save hbase hguard hpc hreply hnew)
  | dropSaves p batch todo _ _ _ hpc hout =>
    refine h.imp_right fun hset => hset.update rfl hset.journal ?_ ?_ ?_
    · have howned := hset.owned p
      rw [hpc] at howned
      simp only [ownedOps, opsOf_saveJournalEntries]
      exact fun w hw => howned w (mem_append_left _ hw)
    · intro hnone
      rcases hout with ⟨-, rfl⟩ | ⟨fails, -, rfl⟩
      · exact hnone
      · rw [← hnone]
        exact flushChunk_settled hbase hset hpc fails
    · intro hpend
      rw [hpc] at hpend
      rcases hguard with hclean | hnil
      · exact absurd hclean (not_clean_of_dropSaves hout)
      · obtain ⟨group, hgroup, -⟩ := hpend
        rw [hnil batch todo hpc] at hgroup
        simp at hgroup
  | ackSaves p batch todo failed acks outcome hpc =>
    refine h.keep rfl rfl rfl ?_ ?_
    · rw [ownedOps_afterSaves _ _ _ acks, hpc]
      exact fun w hw _ => hw
    · rw [hpc]
      exact pendingRemove_afterSaves
  | remove p batch todo i group pc hpc hgroup hnew =>
    exact h.imp_right (settled_remove hpc hgroup hnew)
  | ackRemoves p batch group todo outcome pc hpc hnew =>
    refine h.keep rfl rfl rfl ?_ ?_
    · rw [hpc]
      intro w hw _
      rcases hnew with rfl | rfl
      · exact ownedOps_continueRemoves_subset _ _ hw
      · exact hw
    rw [hpc]
    intro hpend
    rcases hnew with rfl | rfl
    · exact pendingRemove_continueRemoves hpend
    · exact hpend.subset (subset_cons_self _ _)
  | dropRemoves p batch _ hpc =>
    have hin := hbase.inBatch p
    have hrequeue : RemovesTarget batch.removes t →
        PendingRemove t (.requeue (removeJournalEntries batch.removes) : PC V) := by
      rintro ⟨group, hgroup, r, hr, hrt⟩
      exact ⟨removeItem group.1 r, mem_removeOps.mpr ⟨group, hgroup, r, hr, rfl⟩, rfl, hrt⟩
    rcases hpc with hpc | ⟨group, hpc⟩
    · rw [hpc] at hin
      refine h.keep rfl rfl rfl ?_ ?_
      · rw [hpc]
        exact fun w hw _ => hw
      · rw [hpc]
        exact fun hpend => hrequeue (hpend.subset hin)
    rw [hpc] at hin
    refine h.keep rfl rfl rfl ?_ ?_
    · rw [hpc]
      exact fun w hw _ => hw
    · rw [hpc]
      exact fun hpend => hrequeue (hpend.subset hin.2)
  | requeue _ _ _ hpc hperm => exact deleted_requeue hguard hpc hperm h
  | finish _ _ hpc =>
    refine h.keep_free rfl rfl rfl ?_ rfl
    rw [hpc]
    exact fun _ => id
  | drain => exact False.elim hguard

theorem deleted_push (hpush : s.journal.push (stampItems s.admitted.length items) = some journal)
    (h : EndsInRemove t s.admitted → Deleted s t)
    (hlast : EndsInRemove t (s.admitted ++ stampItems s.admitted.length items)) :
    Deleted { s with
      journal := journal
      admitted := s.admitted ++ stampItems s.admitted.length items } t := by
  have hops : opsOf journal.entries =
      opsOf s.journal.entries ++ stampItems s.admitted.length items :=
    Journal.opsOf_push hpush
  rcases endsInRemove_append hlast with hnew | ⟨hold, hnone⟩
  · refine .inl ?_
    simp only [hops]
    exact endsInRemove_append_right _ hnew
  rcases h hold with hend | hset
  · refine .inl ?_
    simp only [hops]
    exact endsInRemove_append_left hend hnone
  refine .inr ⟨?_, hset.noSave, hset.gone⟩
  simp only [hops]
  rw [forall_mem_append]
  exact ⟨hset.journal, hnone⟩

/-- In a run of ordered steps, what was removed last has no document once the flusher is idle. -/
theorem removed_stays_removed [DecidableEq V] {cfg : Config V} {s : State V}
    (h : Reach (next cfg) (Fresh cfg) (orderedStep cfg) s) {t : Target}
    (hlast : EndsInRemove t s.admitted) (hempty : s.journal.entries = [])
    (hidle : s.inFlight = 0) : s.backend t = none := by
  have hinv : EndsInRemove t s.admitted → Deleted s t := by
    refine @Reach.invariant_of _ _ _ _ _ Base
      (fun s => EndsInRemove t s.admitted → Deleted s t) (fun _ => base_of_reach) ?_ ?_ s h
    · rintro _ ⟨backend, rfl⟩ ⟨r, hr, -⟩
      simp [initial] at hr
    intro s a s' hbase ih hguard hnext hlast'
    have hmove := move_of_next hnext
    by_cases hpush : ∃ items, a = .push items
    · obtain ⟨items, rfl⟩ := hpush
      obtain ⟨journal, hjournal, rfl⟩ := map_eq_some_iff.mp hnext
      exact deleted_push hjournal ih hlast'
    have hother : ∀ items, a ≠ .push items := fun items heq => hpush ⟨items, heq⟩
    refine deleted_move hmove hbase hguard hother (ih ?_)
    rcases admitted_move hmove with hsame | ⟨items, heq, -⟩
    · rwa [hsame] at hlast'
    · exact absurd heq (hother items)
  rcases hinv hlast with ⟨r, hr, -⟩ | hset
  · rw [hempty] at hr
    simp at hr
  rcases hset.gone with hnone | ⟨p, hp⟩
  · exact hnone
  · have hfree := (base_of_reach h).counted.not_holdsBatch hidle p
    exact absurd hp (not_pendingRemove_of_free hfree)

def orderedTest (s : State V) : Label V → Bool
  | .take _ => decide (s.inFlight = 0)
  | .save _ (.results fails) => decide (true ∉ fails)
  | .save _ _ | .requeue _ _ | .rollbackPending => false
  | _ => true

theorem orderedStep_of_test (hbase : Base s) (h : orderedTest s a = true) :
    orderedStep cfg s a := by
  cases a with
  | take =>
    rintro t - ⟨q, w, hw, -⟩
    rw [hbase.counted.no_owner (by simpa [orderedTest] using h) q] at hw
    simp at hw
  | save p outcome =>
    cases outcome with
    | results =>
      refine .inl ?_
      simpa [orderedTest, clean] using h
    | error | mismatch => simp [orderedTest] at h
  | requeue | rollbackPending => simp [orderedTest] at h
  | _ => trivial

theorem removed_stays_removed_in_order :
    ∃ s : State Nat, EndsInRemove heroSave.target s.admitted ∧ s.journal.entries = [] ∧
      s.inFlight = 0 ∧ s.writes ≠ [] ∧ s.backend heroSave.target = none := by
  obtain ⟨s, hreach, hlast, hempty, hidle, hwrites⟩ : ∃ s,
      Reach (next twoWorkers) (Fresh twoWorkers) (orderedStep twoWorkers) s ∧
      lastOp heroSave.target s.admitted = some (heroRemoval.stamp 1) ∧ s.journal.entries = [] ∧
      s.inFlight = 0 ∧ s.writes ≠ [] :=
    exists_of_run ⟨fun _ => none, rfl⟩ orderedTest
      [.start, .push [heroSave], .push [heroRemoval], .take (.worker 0),
        .save (.worker 0) (.results []), .finish (.worker 0), .notify (.worker 0),
        .take (.worker 1), .remove (.worker 1) 0 .ok, .finish (.worker 1),
        .notify (.worker 1)]
      (fun _ _ h => orderedStep_of_test (base_of_reach h)) (by decide +kernel)
  have hend : EndsInRemove heroSave.target s.admitted := ⟨_, hlast, rfl⟩
  exact ⟨s, hend, hempty, hidle, hwrites, removed_stays_removed hreach hend hempty hidle⟩

end CubeCore.Tombstones
