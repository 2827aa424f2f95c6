import CubeCore.OperationAccounting

namespace CubeCore.OperationOrigin

open SaveItems JournalQueue BatchDedup KeptOperations FlusherSystem FlusherMoves BatchOwnership List
open OperationAccounting

variable {V : Type}

variable {R : Bool → Target → Prop}

def AllOps (R : Bool → Target → Prop) (ops : List (SaveItem V)) : Prop :=
  ∀ x ∈ ops, R x.isRemove x.target

/-- Every operation in the journal or in a batch has kind and target in `R`. -/
structure Origin (R : Bool → Target → Prop) (s : State V) : Prop where
  journal : AllOps R (opsOf s.journal.entries)
  owned : ∀ p, AllOps R (ownedOps (s.procs p))

theorem AllOps.subset (h : AllOps R ys) (hsub : xs ⊆ ys) : AllOps R xs :=
  fun x hx => h x (hsub hx)

theorem allOps_nil : AllOps R ([] : List (SaveItem V)) := by
  simp [AllOps]

theorem allOps_append :
    AllOps R (xs ++ ys) ↔ AllOps R xs ∧ AllOps R ys := by
  simp only [AllOps, mem_append, or_imp, forall_and]

theorem allOps_dedup (h : AllOps R (opsOf entries)) :
    AllOps R ((dedup entries).saves ++ removeOps (dedup entries).removes) := by
  refine allOps_append.mpr ⟨?_, ?_⟩
  · intro w hw
    obtain ⟨-, hsave, x, hx, hxsave, htarget⟩ := saveMap_provenance (mem_saves_iff.mp hw)
    have hr := h x hx
    rwa [hxsave, htarget, ← hsave] at hr
  intro x hx
  obtain ⟨group, hgroup, r, hr, rfl⟩ := mem_removeOps.mp hx
  obtain ⟨y, hy, hremove, htarget, -⟩ := exists_remove_of_holdsRemove
    (holdsRemove_dedup_iff.mp ⟨group, hgroup, r, hr, rfl, rfl⟩)
  have hr := h y hy
  rwa [hremove, htarget] at hr

theorem ownedOps_ackSaves_subset (batch : Batch V) (todo todo' : List (SaveItem V))
    (failed : Bool) (acks : List (SaveItem V)) :
    ownedOps (.ackSaves batch todo failed acks) ⊆ ownedOps (.saving batch todo') := by
  intro x hx
  cases failed with
  | true => exact mem_append_left _ hx
  | false =>
    rcases mem_append.mp hx with hsaves | hremoves
    · split at hsaves
      · simp at hsaves
      · exact mem_append_left _ hsaves
    · exact mem_append_right _ hremoves

theorem ownedOps_continueRemoves_subset (batch : Batch V)
    (todo : List (RemoveKey × List RemoveId)) :
    ownedOps (continueRemoves batch todo) ⊆ removeOps batch.removes := by
  rw [ownedOps_continueRemoves]
  split
  · simp
  · exact fun _ => id

theorem Origin.update (h : Origin R s) (hprocs : s'.procs = Function.update s.procs p pc)
    (hjournal : AllOps R (opsOf s'.journal.entries)) (hpc : AllOps R (ownedOps pc)) :
    Origin R s' := by
  refine ⟨hjournal, ?_⟩
  rw [hprocs]
  exact (Function.forall_update_iff _ fun _ pc => AllOps R (ownedOps pc)).mpr
    ⟨hpc, fun q _ => h.owned q⟩

theorem origin_initial (cfg : Config V) (backend : Backend V) : Origin R (initial cfg backend) :=
  ⟨allOps_nil, fun _ => allOps_nil⟩

theorem allOps_stampItems (h : AllOps R items) (n : Nat) :
    AllOps R (stampItems n items) := by
  induction items generalizing n with
  | nil => exact allOps_nil
  | cons item items ih =>
    intro x hx
    rcases mem_cons.mp hx with rfl | htail
    · exact h item mem_cons_self
    · exact ih (h.subset (subset_cons_self _ _)) (n + 1) x htail

theorem origin_move (hmove : Move cfg s a s') (hpush : ∀ items, a = .push items → AllOps R items)
    (h : Origin R s) : Origin R s' := by
  cases hmove with
  | still hwork hprocs =>
    exact ⟨by rw [hwork.entries]; exact h.journal, by rw [hprocs]; exact h.owned⟩
  | quiet _ _ hwork hprocs _ hbusy =>
    refine h.update hprocs (by rw [hwork.entries]; exact h.journal) ?_
    rw [ownedOps_of_not_busy hbusy]
    exact allOps_nil
  | idleStop =>
    refine ⟨?_, h.owned⟩
    split <;> exact h.journal
  | wait | receive | finish => exact h.update rfl h.journal allOps_nil
  | notify p failed =>
    refine h.update rfl h.journal ?_
    rw [ownedOps_of_not_busy (afterBatch_idle p failed).1]
    exact allOps_nil
  | push items journal hj =>
    refine ⟨?_, h.owned⟩
    simp only [opsOf, Journal.opsOf_push hj]
    exact allOps_append.mpr ⟨h.journal, allOps_stampItems (hpush items rfl) _⟩
  | take =>
    have hops := h.journal
    rw [opsOf_tryPopBatch s.journal cfg.batchSize, allOps_append] at hops
    refine h.update rfl hops.2 ?_
    exact (allOps_dedup hops.1).subset
      (ownedOps_afterSaves _ _ false [] ▸ ownedOps_ackSaves_subset _ _ [] false [])
  | save p batch todo fails dirty reply pc hpc _ hnew =>
    have howned := h.owned p
    rw [hpc] at howned
    refine h.update rfl h.journal ?_
    rcases hnew with rfl | rfl
    · rw [ownedOps_afterSaves _ _ _ []]
      exact howned.subset (ownedOps_ackSaves_subset _ _ todo _ _)
    · exact howned.subset (ownedOps_ackSaves_subset _ _ todo _ _)
  | dropSaves p batch todo outcome dirty backend hpc =>
    have howned := h.owned p
    rw [hpc] at howned
    refine h.update rfl h.journal ?_
    simp only [ownedOps, opsOf_saveJournalEntries]
    exact (allOps_append.mp howned).1
  | ackSaves p _ _ _ acks _ hpc =>
    have howned := h.owned p
    rw [hpc] at howned
    refine h.update rfl h.journal ?_
    rwa [ownedOps_afterSaves _ _ _ acks]
  | remove p batch todo i group pc hpc _ hnew
  | ackRemoves p batch group todo outcome pc hpc hnew =>
    have howned := h.owned p
    rw [hpc] at howned
    refine h.update rfl h.journal ?_
    rcases hnew with rfl | rfl
    · exact howned.subset (ownedOps_continueRemoves_subset _ _)
    · exact howned
  | dropRemoves p _ _ hpc =>
    have howned := h.owned p
    refine h.update rfl h.journal ?_
    rcases hpc with hpc | ⟨group, hpc⟩
    · rwa [hpc] at howned
    · rwa [hpc] at howned
  | requeue p _ _ hpc hperm =>
    have howned := h.owned p
    rw [hpc] at howned
    refine h.update rfl ?_ allOps_nil
    simp only [Journal.pushFront]
    split
    · exact h.journal
    split
    · exact h.journal
    · simp only [opsOf_append]
      exact allOps_append.mpr
        ⟨howned.subset fun x hx => (mem_opsOf_of_perm hperm).mp hx, h.journal⟩
  | drain => exact h.update rfl allOps_nil allOps_nil

end CubeCore.OperationOrigin
