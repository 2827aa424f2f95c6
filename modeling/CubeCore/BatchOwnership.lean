import CubeCore.KeptOperations
import CubeCore.FlusherMoves
import Mathlib.Data.Finset.Card

namespace CubeCore.BatchOwnership

open SaveItems JournalQueue BatchDedup KeptOperations FlusherSystem FlusherMoves TransitionSystem
open List Function

variable {V : Type}

@[simp] theorem opsOf_saveJournalEntries (items : List (SaveItem V)) :
    opsOf (saveJournalEntries items) = items := by
  induction items with
  | nil => rfl
  | cons item items ih =>
    simp only [opsOf, saveJournalEntries] at ih
    simp [opsOf, saveJournalEntries, ih]

@[simp] theorem removeItem_isRemove (rk : RemoveKey) (r : RemoveId) :
    (removeItem rk r : SaveItem V).isRemove = true := rfl

theorem mem_removeOps :
    x ∈ removeOps removes ↔ ∃ group ∈ removes, ∃ r ∈ group.2, removeItem group.1 r = x := by
  simp only [removeOps, opsOf, removeJournalEntries, flatMap_map, mem_flatMap, mem_map]

variable {pc : PC V}

theorem holdsBatch_of_mem_ownedOps (h : x ∈ ownedOps pc) :
    holdsBatch pc = true := by
  cases pc <;> first | rfl | simp [ownedOps] at h

theorem holdsBatch_of_not_busy (h : busy pc = false) : holdsBatch pc = false := by
  simp only [busy, Bool.or_eq_false_iff] at h
  exact h.1

theorem flushedOk_of_holdsBatch (h : holdsBatch pc = true) : flushedOk pc = false := by
  cases pc <;> first | rfl | simp [holdsBatch] at h

theorem ownedOps_of_not_busy (h : busy pc = false) : ownedOps pc = [] := by
  rw [eq_nil_iff_forall_not_mem]
  intro x hx
  have hholds := holdsBatch_of_mem_ownedOps hx
  rw [holdsBatch_of_not_busy h] at hholds
  simp at hholds

@[simp] theorem holdsBatch_continueRemoves (batch : Batch V)
    (todo : List (RemoveKey × List RemoveId)) : holdsBatch (continueRemoves batch todo) = true := by
  simp only [continueRemoves]
  split <;> rfl

@[simp] theorem holdsBatch_continueSaves (batch : Batch V) (todo : List (SaveItem V)) :
    holdsBatch (continueSaves batch todo) = true := by
  cases todo with
  | nil => exact holdsBatch_continueRemoves batch batch.removes
  | cons => rfl

@[simp] theorem holdsBatch_afterSaves (batch : Batch V) (todo : List (SaveItem V))
    (failed : Bool) : holdsBatch (afterSaves batch todo failed) = true := by
  cases failed with
  | false => exact holdsBatch_continueSaves batch todo
  | true => rfl

/-- `inFlight` counts the goroutines that hold a batch. -/
def Counted (s : State V) : Prop :=
  ∃ owners : Finset Pid,
    (∀ p, p ∈ owners ↔ holdsBatch (s.procs p) = true) ∧ owners.card = s.inFlight

variable {s s' : State V}

theorem Counted.congr (h : Counted s)
    (hprocs : ∀ q, holdsBatch (s'.procs q) = holdsBatch (s.procs q))
    (hcount : s'.inFlight = s.inFlight) : Counted s' := by
  obtain ⟨owners, hmem, hcard⟩ := h
  refine ⟨owners, ?_, by rw [hcount, hcard]⟩
  intro q
  rw [hmem, hprocs]

variable {p : Pid}

theorem holdsBatch_update (h : holdsBatch pc = holdsBatch (procs p)) (q : Pid) :
    holdsBatch (update procs p pc q) = holdsBatch (procs q) := by
  rcases eq_or_ne q p with rfl | hne
  · rw [update_self, h]
  · rw [update_of_ne hne]

theorem Counted.insert (h : Counted s) (hold : holdsBatch (s.procs p) = false)
    (hnew : holdsBatch pc = true) (hprocs : s'.procs = update s.procs p pc)
    (hcount : s'.inFlight = s.inFlight + 1) : Counted s' := by
  obtain ⟨owners, hmem, hcard⟩ := h
  have hp : p ∉ owners := by
    rw [hmem, hold]
    simp
  refine ⟨Insert.insert p owners, ?_, ?_⟩
  · intro q
    rw [Finset.mem_insert, hmem, hprocs]
    rcases eq_or_ne q p with rfl | hne
    · simp [hnew]
    · simp [hne]
  · rw [Finset.card_insert_of_notMem hp, hcard, hcount]

theorem Counted.erase (h : Counted s) (hold : holdsBatch (s.procs p) = true)
    (hnew : holdsBatch pc = false) (hprocs : s'.procs = update s.procs p pc)
    (hcount : s'.inFlight = s.inFlight - 1) : Counted s' := by
  obtain ⟨owners, hmem, hcard⟩ := h
  refine ⟨owners.erase p, ?_, ?_⟩
  · intro q
    rw [Finset.mem_erase, hmem, hprocs]
    rcases eq_or_ne q p with rfl | hne
    · simp [hnew]
    · simp [hne]
  · rw [Finset.card_erase_of_mem ((hmem p).mpr hold), hcard, hcount]

variable {cfg : Config V} {a : Label V}

theorem counted_move (hmove : Move cfg s a s') (h : Counted s) : Counted s' := by
  cases hmove with
  | still hwork hprocs => exact h.congr (fun q => by rw [hprocs]) hwork.inFlight
  | quiet _ _ hwork hprocs hbusy hbusy' =>
    refine h.congr (fun q => ?_) hwork.inFlight
    rw [hprocs]
    apply holdsBatch_update
    rw [holdsBatch_of_not_busy hbusy, holdsBatch_of_not_busy hbusy']
  | idleStop | push => exact h.congr (fun _ => rfl) rfl
  | wait _ hpc | receive _ hpc | requeue _ _ _ hpc | drain _ hpc =>
    exact h.congr (holdsBatch_update (by rw [hpc]; rfl)) rfl
  | notify p failed hpc =>
    refine h.congr (holdsBatch_update ?_) rfl
    rw [holdsBatch_of_not_busy (afterBatch_idle p failed).1, hpc]
    rfl
  | take p hcan =>
    exact h.insert (holdsBatch_of_not_busy (canTake_idle hcan).1)
      (holdsBatch_continueSaves _ _) rfl rfl
  | save p batch todo fails dirty reply pc hpc _ hnew =>
    refine h.congr (holdsBatch_update ?_) rfl
    rcases hnew with rfl | rfl
    · rw [hpc, holdsBatch_afterSaves]
      rfl
    · rw [hpc]
      rfl
  | dropSaves p batch todo outcome dirty backend hpc =>
    exact h.congr (holdsBatch_update (by rw [hpc]; rfl)) rfl
  | ackSaves p batch todo failed acks outcome hpc =>
    exact h.congr (holdsBatch_update (by rw [hpc, holdsBatch_afterSaves]; rfl)) rfl
  | remove p batch todo i group pc hpc _ hnew
  | ackRemoves p batch group todo outcome pc hpc hnew =>
    refine h.congr (holdsBatch_update ?_) rfl
    rcases hnew with rfl | rfl
    · rw [hpc, holdsBatch_continueRemoves]
      rfl
    · rw [hpc]
      rfl
  | dropRemoves _ _ _ hpc =>
    refine h.congr (holdsBatch_update ?_) rfl
    rcases hpc with hpc | ⟨group, hpc⟩ <;> rw [hpc] <;> rfl
  | finish _ _ hpc => exact h.erase (by rw [hpc]; rfl) rfl rfl rfl

theorem Counted.not_holdsBatch (h : Counted s) (hzero : s.inFlight = 0) (p : Pid) :
    holdsBatch (s.procs p) = false := by
  obtain ⟨owners, hmem, hcard⟩ := h
  rw [hzero, Finset.card_eq_zero] at hcard
  cases hp : holdsBatch (s.procs p) with
  | false => rfl
  | true =>
    have hin := (hmem p).mpr hp
    rw [hcard] at hin
    simp at hin

theorem Counted.no_owner (h : Counted s) (hzero : s.inFlight = 0) (p : Pid) :
    ownedOps (s.procs p) = [] := by
  rw [eq_nil_iff_forall_not_mem]
  intro x hx
  have hp := holdsBatch_of_mem_ownedOps hx
  rw [h.not_holdsBatch hzero p] at hp
  simp at hp

def Saved (s : State V) (w : SaveItem V) : Prop :=
  ∃ r, (w, r) ∈ s.writes ∧ r ≠ .failed

def Removed (s : State V) (group : RemoveKey × List RemoveId) : Prop :=
  ∀ r ∈ group.2, (group.1.target r.id, r.stamps) ∈ s.removed

/-- The part of a batch that a goroutine has left behind is done. -/
def StageDone (s : State V) : PC V → Prop
  | .saving batch todo => ∀ w ∈ batch.saves, w.isRemove = false ∧ (w ∈ todo ∨ Saved s w)
  | .ackSaves batch todo failed _ =>
    ∀ w ∈ batch.saves, w.isRemove = false ∧ (failed = false → w ∈ todo ∨ Saved s w)
  | .removing batch todo | .ackRemoves batch _ todo =>
    ∀ group ∈ batch.removes, group ∈ todo ∨ Removed s group
  | _ => True

def Staged (s : State V) : Prop :=
  ∀ p, StageDone s (s.procs p)

/-- What has been done stays done. -/
structure History (s s' : State V) : Prop where
  writes : s.writes ⊆ s'.writes
  removed : s.removed ⊆ s'.removed

theorem Saved.mono (h : History s s') (hw : Saved s w) : Saved s' w := by
  obtain ⟨r, hr, hok⟩ := hw
  exact ⟨r, h.writes hr, hok⟩

variable {group : RemoveKey × List RemoveId}

theorem Removed.mono (h : History s s') (hg : Removed s group) : Removed s' group :=
  fun r hr => h.removed (hg r hr)

theorem StageDone.mono (h : History s s') (hpc : StageDone s pc) : StageDone s' pc := by
  cases pc with
  | saving =>
    intro w hw
    exact ⟨(hpc w hw).1, (hpc w hw).2.imp_right (Saved.mono h)⟩
  | ackSaves =>
    intro w hw
    exact ⟨(hpc w hw).1, fun hf => ((hpc w hw).2 hf).imp_right (Saved.mono h)⟩
  | removing | ackRemoves =>
    exact fun g hg => (hpc g hg).imp_right (Removed.mono h)
  | _ => trivial

theorem history_move (hmove : Move cfg s a s') : History s s' := by
  cases hmove with
  | still hwork | quiet _ _ hwork =>
    exact ⟨by rw [hwork.writes]; simp, by rw [hwork.removed]; simp⟩
  | save => exact ⟨subset_append_left _ _, fun _ => id⟩
  | remove => exact ⟨fun _ => id, subset_append_left _ _⟩
  | _ => exact ⟨fun _ => id, fun _ => id⟩

theorem Staged.update (h : Staged s) (hhist : History s s')
    (hprocs : s'.procs = update s.procs p pc) (hpc : StageDone s' pc) : Staged s' := by
  rw [Staged, hprocs]
  exact (forall_update_iff _ fun _ => StageDone s').mpr ⟨hpc, fun q _ => (h q).mono hhist⟩

theorem stageDone_of_not_busy (s : State V) (h : busy pc = false) : StageDone s pc := by
  cases pc <;> trivial

variable {batch : Batch V} {todo : List (RemoveKey × List RemoveId)}

theorem stageDone_continueRemoves (h : ∀ group ∈ batch.removes, group ∈ todo ∨ Removed s group) :
    StageDone s (continueRemoves batch todo) := by
  simp only [continueRemoves]
  split
  · trivial
  · exact h

theorem stageDone_afterSaves {todo} {failed : Bool}
    (h : ∀ w ∈ batch.saves, w.isRemove = false ∧ (failed = false → w ∈ todo ∨ Saved s w)) :
    StageDone s (afterSaves batch todo failed) := by
  cases failed with
  | true => trivial
  | false =>
    cases todo with
    | nil => exact stageDone_continueRemoves fun group hg => .inl hg
    | cons => exact fun w hw => ⟨(h w hw).1, (h w hw).2 rfl⟩

theorem removed_of_append (removed : List (Target × List Nat)) (h : s.removed = removed ++
      group.2.map fun r => (group.1.target r.id, r.stamps)) : Removed s group := by
  intro r hr
  rw [h]
  exact mem_append_right _ (mem_map_of_mem hr)

theorem chunk_done {todo} (hstage : StageDone s (.saving batch todo)) (hhist : History s s')
    (hreply : reply = flushChunk cfg b (todo.take (chunkLength cfg todo)) fails)
    (hwrites : reply.2 ⊆ s'.writes) :
    ∀ w ∈ batch.saves, w.isRemove = false ∧ ((!(rejected reply.2).isEmpty) = false →
      w ∈ todo.drop (chunkLength cfg todo) ∨ Saved s' w) := by
  subst hreply
  intro w hw
  refine ⟨(hstage w hw).1, fun hclean => ?_⟩
  simp only [Bool.not_eq_false', List.isEmpty_iff] at hclean
  rcases (hstage w hw).2 with htodo | hsaved
  · rw [← take_append_drop (chunkLength cfg todo) todo] at htodo
    rcases mem_append.mp htodo with hchunk | hrest
    · obtain ⟨r, hmem, hne⟩ := flushChunk_clean cfg hclean hchunk
      exact .inr ⟨r, hwrites hmem, hne⟩
    · exact .inl hrest
  · exact .inr (hsaved.mono hhist)

theorem group_done (hstage : StageDone s (.removing batch todo)) (hhist : History s s')
    (hgroup : todo[i]? = some group) (hremoved : Removed s' group) :
    ∀ g ∈ batch.removes, g ∈ todo.eraseIdx i ∨ Removed s' g := by
  intro g hg
  rcases hstage g hg with htodo | hold
  · rcases eq_or_ne g group with rfl | hne
    · exact .inr hremoved
    refine .inl (mem_eraseIdx_iff_getElem?.mpr ?_)
    obtain ⟨j, hj⟩ := mem_iff_getElem?.mp htodo
    refine ⟨j, ?_, hj⟩
    rintro rfl
    rw [hgroup, Option.some.injEq] at hj
    exact hne hj.symm
  · exact .inr (hold.mono hhist)

theorem staged_move (hmove : Move cfg s a s') (h : Staged s) : Staged s' := by
  have hhist := history_move hmove
  cases hmove with
  | still _ hprocs =>
    intro q
    rw [hprocs]
    exact (h q).mono hhist
  | quiet _ _ _ hprocs _ hbusy => exact h.update hhist hprocs (stageDone_of_not_busy _ hbusy)
  | idleStop | push => exact fun q => (h q).mono hhist
  | wait | receive | dropSaves | dropRemoves
  | requeue | finish | drain => exact h.update hhist rfl trivial
  | notify p failed =>
    exact h.update hhist rfl (stageDone_of_not_busy _ (afterBatch_idle p failed).1)
  | take =>
    refine h.update hhist rfl ?_
    refine @stageDone_afterSaves _ _ _ _ false ?_
    intro w hw
    exact ⟨(saveMap_provenance (mem_saves_iff.mp hw)).2.1, fun _ => .inl hw⟩
  | save p batch todo fails dirty reply pc hpc hreply hnew =>
    have hstage := h p
    rw [hpc] at hstage
    have hdone := chunk_done hstage hhist hreply (subset_append_right _ _)
    refine h.update hhist rfl ?_
    rcases hnew with rfl | rfl
    · exact stageDone_afterSaves hdone
    · exact hdone
  | ackSaves p batch todo failed acks outcome hpc =>
    have hstage := h p
    rw [hpc] at hstage
    exact h.update hhist rfl (stageDone_afterSaves hstage)
  | remove p batch todo i group pc hpc hgroup hnew =>
    have hstage := h p
    rw [hpc] at hstage
    refine h.update hhist rfl ?_
    rcases hnew with rfl | rfl
    · exact stageDone_continueRemoves (group_done hstage hhist hgroup (removed_of_append _ rfl))
    · exact group_done hstage hhist hgroup (removed_of_append _ rfl)
  | ackRemoves p _ group _ _ _ hpc hnew =>
    have hstage := h p
    rw [hpc] at hstage
    refine h.update hhist rfl ?_
    rcases hnew with rfl | rfl
    · exact stageDone_continueRemoves fun g hg => (hstage g hg).imp_right (Removed.mono hhist)
    · intro g hg
      exact (hstage g hg).imp (mem_cons_of_mem group) (Removed.mono hhist)

theorem closed_move (hmove : Move cfg s a s') (h : s.journal.closed = true) :
    s'.journal.closed = true := by
  cases hmove with
  | still hwork | quiet _ _ hwork => exact hwork.closed h
  | idleStop =>
    split
    · exact h
    · rfl
  | push _ _ hpush => rw [← h]; exact Journal.closed_push hpush
  | requeue => rw [← h]; exact Journal.closed_pushFront _ _
  | _ => exact h

/-- `Stop` gets past its second step only by closing the journal. -/
def ClosedByStop (s : State V) : Prop :=
  pastClose (s.procs .stop) = true → s.journal.closed = true

theorem ClosedByStop.update (h : ClosedByStop s)
    (hclosed : s.journal.closed = true → s'.journal.closed = true)
    (hprocs : s'.procs = update s.procs p pc)
    (hpast : p = .stop → pastClose (s.procs .stop) = true) : ClosedByStop s' := by
  intro hpc
  rw [hprocs] at hpc
  rcases eq_or_ne p .stop with rfl | hne
  · exact hclosed (h (hpast rfl))
  · rw [update_of_ne hne.symm] at hpc
    exact hclosed (h hpc)

theorem closedByStop_move (hmove : Move cfg s a s') (h : ClosedByStop s) : ClosedByStop s' := by
  have hclosed := closed_move hmove
  have past : ∀ {p : Pid} {pc : PC V}, s.procs p = pc → pastClose pc = true →
      p = .stop → pastClose (s.procs .stop) = true := by
    rintro p pc hpc hpast rfl
    rwa [hpc]
  cases hmove with
  | still _ hprocs =>
    intro hpc
    rw [hprocs] at hpc
    exact hclosed (h hpc)
  | quiet p pc hwork hprocs _ _ _ _ hpast =>
    intro hpc
    rw [hprocs] at hpc
    rcases eq_or_ne p .stop with rfl | hne
    · rcases hpast rfl hpc with hold | hnew
      · exact hclosed (h hold)
      · exact hnew
    · rw [update_of_ne hne.symm] at hpc
      exact hclosed (h hpc)
  | idleStop | push => exact fun hpc => hclosed (h hpc)
  | wait _ hpc | receive _ hpc | notify _ _ hpc
  | save p batch todo fails dirty reply pc hpc
  | ackSaves p batch todo failed acks outcome hpc | remove p batch todo i group pc hpc
  | ackRemoves p batch group todo outcome pc hpc | requeue _ _ _ hpc
  | finish _ _ hpc | drain _ hpc => exact h.update hclosed rfl (past hpc rfl)
  | take p hcan => exact h.update hclosed rfl fun hp => ((canTake_idle hcan).2 hp).1
  | dropSaves p batch todo outcome dirty backend hpc =>
    exact h.update hclosed rfl (past hpc rfl)
  | dropRemoves _ _ _ hpc =>
    rcases hpc with hpc | ⟨group, hpc⟩
    · exact h.update hclosed rfl (past hpc rfl)
    · exact h.update hclosed rfl (past hpc rfl)

/-- A property of single goroutines that every stage of `processBatch` hands on
to the next one. -/
structure StageRule (P : PC V → Prop) : Prop where
  free : ∀ pc, holdsBatch pc = false → P pc
  done : ∀ failed, P (.finish failed)
  taken : ∀ entries, P (continueSaves (dedup entries) (dedup entries).saves)
  saved : ∀ batch todo n failed acks, P (.saving batch todo) →
    P (.ackSaves batch (todo.drop n) failed acks)
  acked : ∀ batch todo failed acks, P (.ackSaves batch todo failed acks) →
    P (afterSaves batch todo failed)
  savesFailed : ∀ batch todo, P (.saving batch todo) →
    P (.requeue (saveJournalEntries batch.saves))
  removed : ∀ batch todo i group, P (.removing batch todo) → todo[i]? = some group →
    P (.ackRemoves batch group (todo.eraseIdx i))
  ackedRemove : ∀ batch group todo, P (.ackRemoves batch group todo) →
    P (continueRemoves batch todo)
  repeated : ∀ batch group todo, P (.ackRemoves batch group todo) →
    P (.removing batch (group :: todo))
  removesFailed : ∀ batch todo,
    (P (.removing batch todo) ∨ ∃ group, P (.ackRemoves batch group todo)) →
    P (.requeue (removeJournalEntries batch.removes))

theorem stageRule_move (rule : StageRule P) (hmove : Move cfg s a s') (h : ∀ p, P (s.procs p)) :
    ∀ p, P (s'.procs p) := by
  have update : ∀ {q : Pid} {pc : PC V}, P pc → ∀ p, P (update s.procs q pc p) :=
    fun hpc => (forall_update_iff _ fun _ => P).mpr ⟨hpc, fun p _ => h p⟩
  have at_pc : ∀ {p : Pid} {pc : PC V}, s.procs p = pc → P pc := fun hpc => hpc ▸ h _
  cases hmove with
  | still _ hprocs => rw [hprocs]; exact h
  | quiet p pc _ hprocs _ hbusy =>
    rw [hprocs]
    exact update (rule.free pc (holdsBatch_of_not_busy hbusy))
  | idleStop | push => exact h
  | wait | receive | finish | drain => exact update (rule.free _ rfl)
  | notify p failed =>
    exact update (rule.free _ (holdsBatch_of_not_busy (afterBatch_idle p failed).1))
  | take => exact update (rule.taken _)
  | save p batch todo fails dirty reply pc hpc _ hnew =>
    have hsaved := rule.saved batch todo (chunkLength cfg todo)
      (!(rejected reply.2).isEmpty) (FlusherSystem.acked reply.2) (at_pc hpc)
    rcases hnew with rfl | rfl
    · exact update (rule.acked _ _ _ _ hsaved)
    · exact update hsaved
  | dropSaves p batch todo _ _ _ hpc => exact update (rule.savesFailed batch todo (at_pc hpc))
  | ackSaves p batch todo failed acks _ hpc => exact update (rule.acked _ _ _ _ (at_pc hpc))
  | remove _ batch todo i group _ hpc hgroup hnew =>
    have hremoved := rule.removed batch todo i group (at_pc hpc) hgroup
    rcases hnew with rfl | rfl
    · exact update (rule.ackedRemove _ _ _ hremoved)
    · exact update hremoved
  | ackRemoves p batch group todo _ pc hpc hnew =>
    rcases hnew with rfl | rfl
    · exact update (rule.ackedRemove _ _ _ (at_pc hpc))
    · exact update (rule.repeated _ _ _ (at_pc hpc))
  | dropRemoves p batch todo hpc =>
    rcases hpc with hpc | ⟨group, hpc⟩
    · exact update (rule.removesFailed batch todo (.inl (at_pc hpc)))
    · exact update (rule.removesFailed batch todo (.inr ⟨group, at_pc hpc⟩))
  | requeue => exact update (rule.done true)

/-- What a goroutine has left to do is part of its batch. -/
def InBatch : PC V → Prop
  | .saving batch todo | .ackSaves batch todo _ _ => todo ⊆ batch.saves
  | .removing batch todo => todo ⊆ batch.removes
  | .ackRemoves batch group todo => group ∈ batch.removes ∧ todo ⊆ batch.removes
  | _ => True

theorem inBatch_continueRemoves (h : todo ⊆ batch.removes) :
    InBatch (continueRemoves batch todo) := by
  simp only [continueRemoves]
  split
  · trivial
  · exact h

theorem inBatch_continueSaves {todo} (h : todo ⊆ batch.saves) :
    InBatch (continueSaves batch todo) := by
  cases todo with
  | nil => exact inBatch_continueRemoves (List.Subset.refl _)
  | cons => exact h

theorem inBatch_rule : StageRule (InBatch : PC V → Prop) where
  free := by
    intro pc hpc
    cases pc <;> trivial
  done := fun _ => trivial
  taken := fun _ => inBatch_continueSaves (List.Subset.refl _)
  saved := fun _ todo n _ _ h => List.Subset.trans (drop_subset n todo) h
  acked := by
    intro batch todo failed acks h
    cases failed with
    | true => trivial
    | false => exact inBatch_continueSaves h
  savesFailed := fun _ _ _ => trivial
  removed := fun _ _ _ _ h hgroup =>
    ⟨h (mem_of_getElem? hgroup), List.Subset.trans (eraseIdx_subset) h⟩
  ackedRemove := fun _ _ _ h => inBatch_continueRemoves h.2
  repeated := fun _ _ _ h => cons_subset.mpr h
  removesFailed := fun _ _ _ => trivial

structure Base (s : State V) : Prop where
  counted : Counted s
  staged : Staged s
  closedByStop : ClosedByStop s
  inBatch : ∀ p, InBatch (s.procs p)

/-- The states a checkpoint can start in: an empty journal over any backend. -/
def Fresh (cfg : Config V) (s : State V) : Prop :=
  ∃ backend, s = initial cfg backend

theorem base_of_reach [DecidableEq V] {guard} (h : Reach (next cfg) (Fresh cfg) guard s) :
    Base s := by
  refine h.invariant ?_ ?_
  · rintro _ ⟨backend, rfl⟩
    refine ⟨⟨∅, fun _ => by simp [initial, holdsBatch], rfl⟩, fun _ => trivial, fun h => ?_,
      fun _ => trivial⟩
    simp [initial, pastClose] at h
  intro s a s' hbase _ hnext
  have hmove := move_of_next hnext
  exact ⟨counted_move hmove hbase.counted, staged_move hmove hbase.staged,
    closedByStop_move hmove hbase.closedByStop,
    stageRule_move inBatch_rule hmove hbase.inBatch⟩

end CubeCore.BatchOwnership
