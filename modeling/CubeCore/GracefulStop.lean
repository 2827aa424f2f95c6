import CubeCore.FlushBarrier

namespace CubeCore.GracefulStop

open TransitionSystem SaveItems JournalQueue BatchDedup KeptOperations FlusherSystem FlusherMoves
open BatchOwnership Function OperationAccounting FlushBarrier

variable {V : Type} (s : State V)

def Executed (n : Nat) (t : Target) : Prop :=
  ∃ e ∈ s.removed, e.1 = t ∧ n ∈ e.2

def Superseded (n : Nat) (t : Target) : Prop :=
  ∃ e ∈ s.removed, e.1 = t ∧ ∃ m ∈ e.2, n < m

/-- The item with admission number `n` was written or executed, or a later remove of its target
was. -/
def Served (n : Nat) (item : SaveItem V) : Prop :=
  (if item.isRemove then Executed s n item.target else Written s n item.target) ∨
    Superseded s n item.target

def StopReturnedNil : Prop :=
  s.procs .stop = .returned false ∨ 0 < s.idleStops

instance (s : State V) (n : Nat) (t : Target) : Decidable (Executed s n t) :=
  inferInstanceAs (Decidable (∃ e ∈ s.removed, e.1 = t ∧ n ∈ e.2))

instance (s : State V) (n : Nat) (t : Target) : Decidable (Superseded s n t) :=
  inferInstanceAs (Decidable (∃ e ∈ s.removed, e.1 = t ∧ ∃ m ∈ e.2, n < m))

instance (s : State V) (n : Nat) (t : Target) : Decidable (Written s n t) :=
  inferInstanceAs (Decidable (∃ o ∈ s.writes, o.2 ≠ .failed ∧ o.1.target = t ∧ n ∈ o.1.stamps))

instance (s : State V) (n : Nat) (item : SaveItem V) : Decidable (Served s n item) :=
  inferInstanceAs (Decidable (_ ∨ _))

/-- A write fails after `Stop` has closed the journal, and `Stop` returns nil. -/
theorem stop_nil_loses_failed_batch :
    ∃ s : State Nat, Reach (next smallConfig) (Fresh smallConfig) anyStep s ∧
      StopReturnedNil s ∧ s.admitted[0]? = some (heroSave.stamp 0) ∧
      ¬ Served s 0 (heroSave.stamp 0) := by
  refine exists_reach_imp (P := fun s => s.procs .stop = .returned false ∧
      s.admitted[0]? = some (heroSave.stamp 0) ∧ ¬ Served s 0 (heroSave.stamp 0))
    (exists_of_anyRun ⟨fun _ => none, rfl⟩
      [.start, .push [heroSave], .take (.worker 0), .stop, .close,
        .save (.worker 0) (.results [true]),
        .requeue (.worker 0) [⟨[heroSave.stamp 0]⟩], .finish (.worker 0),
        .notify (.worker 0), .exit 0, .join true, .take .stop, .check .stop, .stopWal true]
      (by decide +kernel)) ?_
  rintro s hreach ⟨hret, hitem, hlost⟩
  exact ⟨.inl hret, hitem, hlost⟩

/-- No save follows a remove of its target, and a remove was admitted after what it stands
behind. -/
def InOrder (ops : List (SaveItem V)) : Prop :=
  ops.Pairwise fun a b => a.target = b.target →
    (a.isRemove = true → b.isRemove = true) ∧
      (b.isRemove = true → ∀ n ∈ a.stamps, ∃ m ∈ b.stamps, n < m)

instance (ops : List (SaveItem V)) : Decidable (InOrder ops) :=
  inferInstanceAs (Decidable (List.Pairwise _ ops))

/-- `Stop` is called on a running checkpoint, every batch is in order, a write fails only in a batch
without removes, and only `Stop` puts a batch back into a closed journal. -/
def gracefulStep (cfg : Config V) (s : State V) : Label V → Prop
  | .stop => s.running = true
  | .take _ => InOrder (opsOf (s.journal.tryPopBatch cfg.batchSize).1)
  | .save p outcome => clean outcome ∨
      ∀ batch todo, s.procs p = .saving batch todo → batch.removes = []
  | .requeue p _ => p = .stop ∨ s.journal.closed = false
  | _ => True

/-- An operation that stands for the item with number `n`. -/
def itemTest (n : Nat) (item : SaveItem V) : OpTest := fun isRemove t stamps =>
  t = item.target ∧
    if isRemove then (∃ m ∈ stamps, n < m) ∨ (item.isRemove = true ∧ n ∈ stamps)
    else item.isRemove = false ∧ n ∈ stamps

variable {s : State V} {n : Nat} {item : SaveItem V}

theorem served_of_done (h : Done (itemTest n item) s) : Served s n item := by
  rcases h with ⟨w, hw, htarget, hsave, hn⟩ | ⟨e, he, htarget, hlater | ⟨hremove, hn⟩⟩
  · refine .inl ?_
    rw [hsave]
    exact htarget ▸ written_of_saved hw hn
  · exact .inr ⟨e, he, htarget, hlater⟩
  · refine .inl ?_
    rw [hremove]
    exact ⟨e, he, htarget, hn⟩

variable {s' : State V}

theorem Served.mono (hhist : History s s') (h : Served s n item) : Served s' n item := by
  rcases h with hown | ⟨e, he, hfacts⟩
  · refine .inl ?_
    cases hrem : item.isRemove with
    | true =>
      rw [hrem] at hown
      obtain ⟨e, he, hfacts⟩ := hown
      exact ⟨e, hhist.removed he, hfacts⟩
    | false =>
      rw [hrem] at hown
      exact Written.mono hhist hown
  · exact .inr ⟨e, hhist.removed he, hfacts⟩

theorem eq_or_before_lastOp (h : ops.Pairwise R) (hx : x ∈ ops)
    (hlast : lastOp x.target ops = some l) : x = l ∨ R x l := by
  induction ops using List.reverseRecOn with
  | nil => simp at hx
  | append_singleton ops item ih =>
    obtain ⟨hhead, -, hcross⟩ := List.pairwise_append.mp h
    rw [lastOp_snoc] at hlast
    split_ifs at hlast with hne
    · obtain rfl : item = l := by simpa using hlast
      rcases List.mem_append.mp hx with hold | hnew
      · exact .inr (hcross x hold item (by simp))
      · exact .inl (by simpa using hnew)
    rcases List.mem_append.mp hx with hold | hnew
    · exact ih hhead hold hlast
    · obtain rfl : x = item := by simpa using hnew
      exact absurd rfl hne

theorem dedup_inOrder (h : InOrder (opsOf entries))
    (hm : Matches (itemTest n item) (opsOf entries)) :
    Matches (itemTest n item) ((dedup entries).saves ++ removeOps (dedup entries).removes) := by
  obtain ⟨x, hx, htarget, htest⟩ := hm
  have holds : ∀ {st : List Nat}, HoldsRemove (dedup entries).removes item.target st →
      (∃ m ∈ st, n < m) ∨ (item.isRemove = true ∧ n ∈ st) →
      Matches (itemTest n item)
        ((dedup entries).saves ++ removeOps (dedup entries).removes) := by
    rintro st ⟨group, hgroup, r, hr, hrt, rfl⟩ hst
    exact ⟨removeItem group.1 r,
      List.mem_append_right _ (mem_removeOps.mpr ⟨group, hgroup, r, hr, rfl⟩), hrt, hst⟩
  cases hrem : x.isRemove with
  | true =>
    rw [hrem] at htest
    refine holds (holdsRemove_dedup_iff.mpr ?_) htest
    rw [← htarget]
    exact dedup_keeps_removes (h.imp fun hab heq => (hab heq).1) hx hrem
  | false =>
    rw [hrem] at htest
    -- the last operation on the target decides whether the save is written
    obtain ⟨l, hl⟩ : ∃ l, lastOp x.target (opsOf entries) = some l := by
      cases hlast : lastOp x.target (opsOf entries) with
      | none => exact absurd rfl (lastOp_eq_none_iff.mp hlast x hx)
      | some l => exact ⟨l, rfl⟩
    obtain ⟨hlmem, hlt⟩ := mem_of_lastOp hl
    cases hlrem : l.isRemove with
    | true =>
      refine @holds l.stamps (holdsRemove_dedup_iff.mpr ?_) ?_
      · rw [← htarget]
        exact (dedup_last_remove hl hlrem).2
      rcases eq_or_before_lastOp h hx hl with rfl | hbefore
      · rw [hrem] at hlrem
        simp at hlrem
      · exact .inl ((hbefore hlt.symm).2 hlrem n htest.2)
    | false =>
      have hsaves : ∀ y ∈ opsOf entries, y.target = x.target → y.isRemove = false := by
        intro y hy hyt
        rw [← hyt] at hl
        rcases eq_or_before_lastOp h hy hl with rfl | hbefore
        · exact hlrem
        cases hyrem : y.isRemove with
        | false => rfl
        | true =>
          have hcontra := (hbefore (hyt.trans hlt.symm)).1 hyrem
          rw [hlrem] at hcontra
          simp at hcontra
      obtain ⟨w, hw, hwt, hsub⟩ := dedup_keeps_save hx hsaves
      refine ⟨w, List.mem_append_left _ hw, hwt.trans htarget, ?_⟩
      rw [(saveMap_provenance (mem_saves_iff.mp hw)).2.1]
      exact ⟨htest.1, hsub htest.2⟩

variable {cfg : Config V} {a : Label V}

theorem lossless_graceful (hguard : gracefulStep cfg s a)
    (hrequeue : ∀ order, a ≠ .requeue .stop order ∨
      s.journal.closed = false) (hfail : stopFailing (s.procs .stop) = false) (n : Nat)
    (item : SaveItem V) : Lossless cfg (itemTest n item) s a where
  take := by
    rintro p rfl hm
    exact dedup_inOrder hguard hm
  save := by
    rintro p outcome batch todo rfl hpc
    rcases hguard with hclean | hnone
    · exact .inl hclean
    · refine .inr ?_
      rw [hnone batch todo hpc]
      exact not_matches_nil
  requeue := by
    rintro p order rfl
    rcases hguard with rfl | hopen
    · rcases hrequeue order with hne | hopen
      · exact absurd rfl hne
      · exact hopen
    · exact hopen
  drain := by
    intro _ hpc
    rw [hpc] at hfail
    simp [stopFailing] at hfail

theorem stopFailing_of_requeue [DecidableEq V] (h : next cfg s (.requeue .stop order) = some s') :
    stopFailing (s'.procs .stop) = true := by
  simp only [next] at h
  split at h
  · split_ifs at h
    cases h
    simp [State.setPc, stopFailing]
  · simp at h

theorem stopFailing_move (hmove : Move cfg s a s') (h : stopFailing (s.procs .stop) = true) :
    stopFailing (s'.procs .stop) = true := by
  have other : ∀ {p : Pid} {pc : PC V}, stopFailing (s.procs p) = false →
      stopFailing (update s.procs p pc .stop) = true := by
    intro p pc hold
    rcases eq_or_ne p .stop with rfl | hne
    · rw [h] at hold
      simp at hold
    · rwa [update_of_ne hne.symm]
  cases hmove with
  | still _ hprocs => rw [hprocs]; exact h
  | quiet p pc hwork hprocs _ _ _ _ _ hfail =>
    rw [hprocs]
    rcases eq_or_ne p .stop with rfl | hne
    · rw [hfail rfl] at h
      simp at h
    · rwa [update_of_ne hne.symm]
  | idleStop | push => exact h
  | wait _ hpc | receive _ hpc | save p batch todo fails dirty reply pc hpc
  | dropSaves p batch todo outcome dirty backend hpc
  | ackSaves p batch todo failed acks outcome hpc | remove p batch todo i group pc hpc
  | ackRemoves p batch group todo outcome pc hpc | requeue _ _ _ hpc =>
    exact other (by rw [hpc]; rfl)
  | notify p failed hpc =>
    rcases eq_or_ne p .stop with rfl | hne
    · rw [hpc] at h
      cases failed with
      | true => simp [State.setPc, afterBatch, flushAllDone, stopFailing]
      | false => simp [stopFailing] at h
    · simp only [State.setPc, update_of_ne hne.symm]
      exact h
  | take p hcan =>
    rcases eq_or_ne p .stop with rfl | hne
    · rw [((canTake_idle hcan).2 rfl).2] at h
      simp at h
    · simp only [State.setPc, update_of_ne hne.symm]
      exact h
  | dropRemoves _ _ _ hpc =>
    rcases hpc with hpc | ⟨group, hpc⟩
    · exact other (by rw [hpc]; rfl)
    · exact other (by rw [hpc]; rfl)
  | finish p failed hpc =>
    rcases eq_or_ne p .stop with rfl | hne
    · rw [hpc] at h
      cases failed with
      | true => simp [State.setPc, stopFailing]
      | false => simp [stopFailing] at h
    · simp only [State.setPc, update_of_ne hne.symm]
      exact h
  | drain => simp [State.setPc, stopFailing]

theorem idleStops_move (hmove : Move cfg s a s') (hguard : gracefulStep cfg s a) :
    s'.idleStops = s.idleStops := by
  cases hmove with
  | still hwork | quiet _ _ hwork => exact hwork.idleStops
  | idleStop hrunning =>
    have hrun : s.running = true := hguard
    rw [hrunning] at hrun
    simp at hrun
  | _ => rfl

structure StopInv (s : State V) : Prop where
  idle : s.idleStops = 0
  kept : stopFailing (s.procs .stop) = true ∨ AllKept itemTest s
  returned : flushedOk (s.procs .stop) = true → ∀ n item,
    s.admitted[n]? = some item → Served s n item

theorem stopInv_initial (cfg : Config V) (backend : Backend V) :
    StopInv (initial cfg backend) where
  idle := rfl
  kept := by
    refine .inr ?_
    intro n item hitem
    simp [initial] at hitem
  returned := by
    intro hok
    simp [initial, flushedOk] at hok

theorem allKept_graceful [DecidableEq V] (hbase : Base s) (hguard : gracefulStep cfg s a)
    (hnext : next cfg s a = some s') (h : stopFailing (s.procs .stop) = true ∨ AllKept itemTest s) :
    stopFailing (s'.procs .stop) = true ∨ AllKept itemTest s' := by
  have hmove := move_of_next hnext
  cases hfail : stopFailing (s.procs .stop) with
  | true => exact .inl (stopFailing_move hmove hfail)
  | false =>
    have hkept : AllKept itemTest s := by simpa [hfail] using h
    by_cases hrequeue : ∀ order, a ≠ .requeue .stop order ∨ s.journal.closed = false
    · refine .inr (allKept_move ?_ hmove hbase.staged
        (fun n item _ => lossless_graceful hguard hrequeue hfail n item) hkept)
      rintro items - n item - hstamp
      refine ⟨rfl, ?_⟩
      cases hrem : item.isRemove with
      | true => exact .inr ⟨rfl, by simp [hstamp]⟩
      | false => exact ⟨rfl, by simp [hstamp]⟩
    -- `Stop` itself could not put its batch back
    simp only [not_forall, not_or, not_not] at hrequeue
    obtain ⟨order, rfl, -⟩ := hrequeue
    exact .inl (stopFailing_of_requeue hnext)

theorem flushedOk_pastClose (h : flushedOk pc = true) :
    pastClose pc = true ∧ stopFailing pc = false := by
  cases pc with
  | returned failed =>
    cases failed with
    | true => simp [flushedOk] at h
    | false => exact ⟨rfl, rfl⟩
  | stopWal => exact ⟨rfl, rfl⟩
  | _ => simp [flushedOk] at h

theorem admitted_of_closed (hmove : Move cfg s a s') (h : s.journal.closed = true) :
    s'.admitted = s.admitted := by
  rcases admitted_move hmove with hsame | ⟨items, -, -, hnil, hadm, -⟩
  · exact hsame
  · rw [hadm, hnil h]
    simp [stampItems]

theorem stopInv_step [DecidableEq V] (hbase : Base s) (h : StopInv s)
    (hguard : gracefulStep cfg s a) (hnext : next cfg s a = some s') : StopInv s' := by
  have hmove := move_of_next hnext
  refine ⟨(idleStops_move hmove hguard).trans h.idle,
    allKept_graceful hbase hguard hnext h.kept, ?_⟩
  intro hok n item hitem
  refine Served.mono (history_move hmove) ?_
  rcases flushedOk_move hmove hok with hold | ⟨hzero, hempty, hsame⟩
  · -- nothing is admitted once `Stop` has closed the journal
    rw [admitted_of_closed hmove (hbase.closedByStop (flushedOk_pastClose hold).1)] at hitem
    exact h.returned hold n item hitem
  have hfail' := (flushedOk_pastClose hok).2
  have hkept : AllKept itemTest s := by
    rcases h.kept with hfail | hkept
    · rw [stopFailing_move hmove hfail] at hfail'
      simp at hfail'
    · exact hkept
  rw [hsame] at hitem
  exact served_of_done ((hkept n item hitem).done hbase.counted hzero hempty)

/-- When `Stop` has returned nil after graceful steps only, every admitted item
is served. -/
theorem stop_nil_served [DecidableEq V] {cfg : Config V} {s : State V}
    (h : Reach (next cfg) (Fresh cfg) (gracefulStep cfg) s)
    (hnil : StopReturnedNil s) {n : Nat} {item : SaveItem V}
    (hitem : s.admitted[n]? = some item) : Served s n item := by
  have hinv : StopInv s := by
    refine h.invariant_of (fun _ => base_of_reach) ?_ ?_
    · rintro _ ⟨backend, rfl⟩
      exact stopInv_initial cfg backend
    · intro s a s' hbase hinv hguard hnext
      exact stopInv_step hbase hinv hguard hnext
  rcases hnil with hret | hidle
  · exact hinv.returned (by rw [hret]; rfl) n item hitem
  · rw [hinv.idle] at hidle
    exact absurd hidle (Nat.lt_irrefl 0)

def gracefulTest (cfg : Config V) (s : State V) : Label V → Bool
  | .stop => s.running
  | .take _ => decide (InOrder (opsOf (s.journal.tryPopBatch cfg.batchSize).1))
  | .save _ (.results fails) => decide (true ∉ fails)
  | .save _ _ | .requeue _ _ => false
  | _ => true

theorem gracefulStep_of_test (h : gracefulTest cfg s a = true) : gracefulStep cfg s a := by
  cases a with
  | stop => exact h
  | take => simpa [gracefulTest, gracefulStep] using h
  | save p outcome =>
    cases outcome with
    | results =>
      refine .inl ?_
      simpa [gracefulTest, clean] using h
    | error | mismatch => simp [gracefulTest] at h
  | requeue => simp [gracefulTest] at h
  | _ => trivial

def heroRemove : SaveItem Nat :=
  .full ⟨"db", .global, "hero", 7⟩ 0 []

theorem stop_nil_served_remove :
    ∃ s : State Nat, StopReturnedNil s ∧ s.admitted[1]? = some (heroRemove.stamp 1) ∧
      Served s 1 (heroRemove.stamp 1) := by
  obtain ⟨s, hreach, hret, hitem⟩ : ∃ s,
      Reach (next smallConfig) (Fresh smallConfig) (gracefulStep smallConfig) s ∧
      s.procs .stop = .returned false ∧ s.admitted[1]? = some (heroRemove.stamp 1) :=
    exists_of_run ⟨fun _ => none, rfl⟩ (gracefulTest smallConfig)
      [.start, .push [heroSave], .take (.worker 0), .save (.worker 0) (.results []),
        .finish (.worker 0), .notify (.worker 0), .push [heroRemove], .stop, .close,
        .exit 0, .join true, .take .stop, .remove .stop 0 .ok, .finish .stop,
        .notify .stop, .take .stop, .check .stop, .stopWal true]
      (fun _ _ _ => gracefulStep_of_test) (by decide +kernel)
  have hserved := stop_nil_served hreach (.inl hret) hitem
  exact ⟨s, .inl hret, hitem, hserved⟩

end CubeCore.GracefulStop
