import CubeCore.OperationOrigin

namespace CubeCore.FlushBarrier

open TransitionSystem SaveItems JournalQueue KeptOperations FlusherSystem FlusherMoves
open BatchOwnership Function OperationAccounting OperationOrigin

variable {V : Type}

/-- The save with admission number `n` was written, alone or in a merged item. -/
def Written (s : State V) (n : Nat) (t : Target) : Prop :=
  ∃ o ∈ s.writes, o.2 ≠ .failed ∧ o.1.target = t ∧ n ∈ o.1.stamps

variable {s : State V} {n : Nat}

theorem written_of_saved {w : SaveItem V} (hw : Saved s w) (hn : n ∈ w.stamps) :
    Written s n w.target := by
  obtain ⟨r, hr, hok⟩ := hw
  exact ⟨(w, r), hr, hok, rfl, hn⟩

/-- A step with the journal open that admits no remove. -/
def openWithoutRemoves (s : State V) (a : Label V) : Prop :=
  s.journal.closed = false ∧ ∀ items, a = .push items → ∀ x ∈ items, x.isRemove = false

def openWithoutRemovesTest (s : State V) (a : Label V) : Bool :=
  !s.journal.closed && match a with
    | .push items => items.all fun x => !x.isRemove
    | _ => true

variable {a : Label V}

theorem openWithoutRemoves_of_test (h : openWithoutRemovesTest s a = true) :
    openWithoutRemoves s a := by
  simp only [openWithoutRemovesTest, Bool.and_eq_true, Bool.not_eq_true'] at h
  refine ⟨h.1, ?_⟩
  rintro items rfl
  simpa using h.2

/-- An operation that stands for the save with number `n`. -/
def saveTest (n : Nat) (item : SaveItem V) : OpTest :=
  fun isRemove t stamps => isRemove = false ∧ t = item.target ∧ n ∈ stamps

variable {item : SaveItem V}

theorem written_of_done (h : Done (saveTest n item) s) :
    Written s n item.target := by
  rcases h with ⟨w, hw, -, htarget, hn⟩ | ⟨e, -, hfalse, -⟩
  · exact htarget ▸ written_of_saved hw hn
  · simp at hfalse

variable {s' : State V}

theorem Written.mono {t : Target} (hhist : History s s') (h : Written s n t) : Written s' n t := by
  obtain ⟨o, ho, hfacts⟩ := h
  exact ⟨o, hhist.writes ho, hfacts⟩

variable {cfg : Config V}

theorem lossless_save (hguard : openWithoutRemoves s a) (hclose : ClosedByStop s)
    (horigin : Origin (fun isRemove _ => isRemove = false) s) :
    Lossless cfg (saveTest n item) s a where
  take := by
    rintro p rfl ⟨x, hx, hsave, htarget, hn⟩
    have hops := horigin.journal
    rw [opsOf_tryPopBatch s.journal cfg.batchSize, allOps_append] at hops
    obtain ⟨w, hw, hwt, hsub⟩ := dedup_keeps_save hx fun y hy _ => hops.1 y hy
    exact ⟨w, List.mem_append_left _ hw,
      (saveMap_provenance (mem_saves_iff.mp hw)).2.1, hwt.trans htarget, hsub hn⟩
  save := by
    rintro p outcome batch todo rfl hpc
    refine .inr ?_
    rintro ⟨x, hx, hsave, -⟩
    obtain ⟨group, -, r, -, rfl⟩ := mem_removeOps.mp hx
    simp at hsave
  requeue := fun _ _ _ => hguard.1
  drain := by
    intro _ hpc
    have hclosed := hclose (by rw [hpc]; rfl)
    rw [hguard.1] at hclosed
    simp at hclosed

structure BarrierInv (s : State V) : Prop where
  origin : Origin (fun isRemove _ => isRemove = false) s
  kept : AllKept saveTest s
  since_le : ∀ i, s.since i ≤ s.admitted.length
  returned : ∀ i, flushedOk (s.procs (.flush i)) = true → ∀ n item,
    n < s.since i → s.admitted[n]? = some item → Written s n item.target

theorem barrierInv_initial (cfg : Config V) (backend : Backend V) :
    BarrierInv (initial cfg backend) where
  origin := origin_initial cfg backend
  kept := by
    intro n item hitem
    simp [initial] at hitem
  since_le := fun _ => Nat.le_refl 0
  returned := by
    intro i hok
    simp [initial, flushedOk] at hok

theorem flushedOk_move {p : Pid} (hmove : Move cfg s a s') (hok : flushedOk (s'.procs p) = true) :
    flushedOk (s.procs p) = true ∨
      (s.inFlight = 0 ∧ s.journal.entries = [] ∧ s'.admitted = s.admitted) := by
  have other : ∀ {q : Pid} {pc : PC V}, flushedOk pc = false →
      s'.procs = update s.procs q pc → flushedOk (s.procs p) = true := by
    intro q pc hpc hprocs
    rw [hprocs] at hok
    rcases eq_or_ne p q with rfl | hne
    · rw [update_self, hpc] at hok
      simp at hok
    · rwa [update_of_ne hne] at hok
  cases hmove with
  | still _ hprocs => exact .inl (hprocs ▸ hok)
  | quiet q _ hwork hprocs _ _ _ hdone =>
    rcases eq_or_ne p q with rfl | hne
    · rw [hprocs, update_self] at hok
      rcases hdone hok with hold | ⟨hzero, hempty⟩
      · exact .inl hold
      · exact .inr ⟨hzero, hempty, hwork.admitted⟩
    · rw [hprocs, update_of_ne hne] at hok
      exact .inl hok
  | idleStop | push => exact .inl hok
  | wait | receive | dropSaves | dropRemoves
  | requeue | finish | drain => exact .inl (other rfl rfl)
  | notify q failed => exact .inl (other (afterBatch_idle q failed).2.2 rfl)
  | take => exact .inl (other (flushedOk_of_holdsBatch (holdsBatch_continueSaves _ _)) rfl)
  | save q batch todo fails dirty reply pc _ _ hnew =>
    refine .inl (other (flushedOk_of_holdsBatch ?_) rfl)
    rcases hnew with rfl | rfl
    · exact holdsBatch_afterSaves _ _ _
    · rfl
  | ackSaves =>
    exact .inl (other (flushedOk_of_holdsBatch (holdsBatch_afterSaves _ _ _)) rfl)
  | remove q batch todo i group pc _ _ hnew | ackRemoves q batch group todo outcome pc _ hnew =>
    refine .inl (other (flushedOk_of_holdsBatch ?_) rfl)
    rcases hnew with rfl | rfl
    · exact holdsBatch_continueRemoves _ _
    · rfl

theorem since_move (hmove : Move cfg s a s') (i : Nat) :
    s'.since i = s.since i ∨ (s'.procs (.flush i) = .loop ∧ s'.since i = s.admitted.length) := by
  cases hmove with
  | still _ _ hsince => exact .inl (by rw [hsince])
  | quiet p pc _ _ _ _ _ _ _ _ hsince => exact hsince i
  | _ => exact .inl rfl

theorem barrierInv_step [DecidableEq V] (hbase : Base s) (h : BarrierInv s)
    (hguard : openWithoutRemoves s a) (hnext : next cfg s a = some s') : BarrierInv s' := by
  have hmove := move_of_next hnext
  have hself : ∀ items, a = .push items → ∀ n,
      ∀ item ∈ stampItems s.admitted.length items, item.stamps = [n] →
        saveTest n item item.isRemove item.target item.stamps := by
    intro items hitems n item hitem hstamp
    have hsaves : AllOps (fun isRemove _ => isRemove = false) items := hguard.2 items hitems
    exact ⟨allOps_stampItems hsaves _ item hitem, rfl, by simp [hstamp]⟩
  refine ⟨origin_move hmove hguard.2 h.origin,
    allKept_move hself hmove hbase.staged
      (fun n item _ => lossless_save hguard hbase.closedByStop h.origin) h.kept,
    ?_, ?_⟩
  · intro i
    rcases since_move hmove i with hsame | ⟨-, hnew⟩
    · rw [hsame]
      exact Nat.le_trans (h.since_le i) (admitted_length_move hmove)
    · rw [hnew]
      exact admitted_length_move hmove
  intro i hok n item hn hitem
  refine Written.mono (history_move hmove) ?_
  rcases flushedOk_move hmove hok with hold | ⟨hzero, hempty, hsame⟩
  · -- the call had ended before: nothing it waited for has changed
    rcases since_move hmove i with hsame | ⟨hloop, -⟩
    · rw [hsame] at hn
      have hlt := Nat.lt_of_lt_of_le hn (h.since_le i)
      rw [admitted_getElem?_move hmove hlt] at hitem
      exact h.returned i hold n item hn hitem
    · rw [hloop] at hok
      simp [flushedOk] at hok
  · rw [hsame] at hitem
    exact written_of_done ((h.kept n item hitem).done hbase.counted hzero hempty)

/-- Every save admitted before a `FlushAll` that has returned nil began is written. -/
theorem flushAll_nil_written [DecidableEq V] {cfg : Config V} {s : State V}
    (h : Reach (next cfg) (Fresh cfg) openWithoutRemoves s) {i n : Nat}
    {item : SaveItem V} (hret : s.procs (.flush i) = .returned false)
    (hbefore : n < s.since i) (hitem : s.admitted[n]? = some item) : Written s n item.target := by
  have hinv : BarrierInv s := by
    refine h.invariant_of (fun _ => base_of_reach) ?_ ?_
    · rintro _ ⟨backend, rfl⟩
      exact barrierInv_initial cfg backend
    · intro s a s' hbase hinv hguard hnext
      exact barrierInv_step hbase hinv hguard hnext
  exact hinv.returned i (by rw [hret]; rfl) n item hbefore hitem

def smallConfig : Config Nat :=
  ⟨10, 1, 10, 100, false, fun _ _ => none⟩

def twoWorkers : Config Nat :=
  ⟨10, 2, 1, 100, false, fun _ _ => none⟩

def heroSave : SaveItem Nat :=
  .full ⟨"db", .global, "hero", 7⟩ 1 [1]

theorem flushAll_nil_written_once :
    ∃ s : State Nat, s.procs (.flush 0) = .returned false ∧ 0 < s.since 0 ∧
      s.admitted[0]? = some (heroSave.stamp 0) ∧ Written s 0 heroSave.target := by
  obtain ⟨s, hreach, hret, hbefore, hitem⟩ : ∃ s, Reach (next smallConfig) (Fresh smallConfig)
      openWithoutRemoves s ∧ s.procs (.flush 0) = .returned false ∧ 0 < s.since 0 ∧ s.admitted[0]? =
      some (heroSave.stamp 0) :=
    exists_of_run ⟨fun _ => none, rfl⟩ openWithoutRemovesTest
      [.start, .push [heroSave], .flush 0, .take (.flush 0),
        .save (.flush 0) (.results []), .finish (.flush 0), .notify (.flush 0),
        .take (.flush 0), .check (.flush 0)]
      (fun _ _ _ => openWithoutRemoves_of_test) (by decide +kernel)
  have hwritten := flushAll_nil_written hreach hret hbefore hitem
  exact ⟨s, hret, hbefore, hitem, hwritten⟩

end CubeCore.FlushBarrier
