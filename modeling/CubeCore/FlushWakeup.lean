import CubeCore.FlushBarrier

namespace CubeCore.FlushWakeup

open TransitionSystem JournalQueue FlusherSystem FlusherMoves BatchOwnership Function FlushBarrier

variable {V : Type}

/-- A caller waits although there is nothing left to wait for and nobody who
would wake it. -/
structure StuckBarrier (s : State V) : Prop where
  waiting : ∃ p, s.procs p = .wait
  idle : s.inFlight = 0
  empty : s.journal.entries = []
  noToken : s.progress = false
  noNotifier : ∀ p, busy (s.procs p) = false

/-- One token for two callers: the first returns without waking the second. -/
theorem second_caller_stuck :
    ∃ s : State Nat, Reach (next smallConfig) (Fresh smallConfig) anyStep s ∧
      s.procs (.flush 0) = .returned false ∧ s.procs (.flush 1) = .wait ∧ StuckBarrier s := by
  have hrun : (run (next smallConfig) (initial smallConfig fun _ => none)
      [.start, .push [heroSave], .flush 0, .flush 1, .take (.worker 0),
        .take (.flush 0), .take (.flush 1), .check (.flush 0), .check (.flush 1),
        .save (.worker 0) (.results []), .finish (.worker 0), .notify (.worker 0),
        .receive (.flush 0), .take (.flush 0), .check (.flush 0)]).isSome = true := by
    decide +kernel
  refine ⟨_, .of_run (.start ⟨fun _ => none, rfl⟩) (Option.some_get hrun).symm, rfl, rfl,
    ⟨.flush 1, rfl⟩, rfl, rfl, rfl, ?_⟩
  intro p
  rcases p with (_ | i) | (_ | _ | i) | _ <;> rfl

/-- There is work whose end will be signalled. -/
def WorkLeft (s : State V) : Prop :=
  0 < s.inFlight ∨ s.journal.entries ≠ [] ∨ ∃ p, busy (s.procs p) = true

/-- A caller takes the token while others wait only if there is work left, and `RollbackPending`
empties the journal only if a waiting caller will be woken. -/
def wakingStep (s : State V) : Label V → Prop
  | .receive p => (∀ q, q ≠ p → s.procs q ≠ .wait) ∨ WorkLeft s
  | .rollbackPending => (∀ q, s.procs q ≠ .wait) ∨ s.progress = true ∨
      0 < s.inFlight ∨ ∃ p, busy (s.procs p) = true
  | _ => True

variable {pc : PC V}

theorem busy_of_holdsBatch (h : holdsBatch pc = true) : busy pc = true := by
  simp [busy, h]

variable {s : State V} {p : Pid}

theorem not_stuck_of_busy (hprocs : s.procs = update procs p pc) (hbusy : busy pc = true) :
    ¬ StuckBarrier s := by
  intro hstuck
  have hidle := hstuck.noNotifier p
  rw [hprocs, update_self, hbusy] at hidle
  simp at hidle

section

variable {s' : State V} (h : StuckBarrier s') (hprocs : s'.procs = update s.procs p pc)
include h hprocs

theorem StuckBarrier.waits (hwait : pc ≠ .wait) : ∃ q ≠ p, s.procs q = .wait := by
  obtain ⟨q, hq⟩ := h.waiting
  rw [hprocs] at hq
  rcases eq_or_ne q p with rfl | hne
  · rw [update_self] at hq
    exact absurd hq hwait
  · rw [update_of_ne hne] at hq
    exact ⟨q, hne, hq⟩

theorem StuckBarrier.not_busy (hold : busy (s.procs p) = false) (q : Pid) :
    busy (s.procs q) = false := by
  rcases eq_or_ne q p with rfl | hne
  · exact hold
  · have hbusy := h.noNotifier q
    rwa [hprocs, update_of_ne hne] at hbusy

theorem StuckBarrier.of_update (hold : busy (s.procs p) = false)
    (hwait : pc ≠ .wait) (hidle : s'.inFlight = s.inFlight)
    (hempty : s'.journal.entries = [] → s.journal.entries = [])
    (htoken : s'.progress = s.progress) : StuckBarrier s := by
  obtain ⟨q, -, hq⟩ := h.waits hprocs hwait
  exact ⟨⟨q, hq⟩, hidle ▸ h.idle, hempty h.empty, htoken ▸ h.noToken, h.not_busy hprocs hold⟩

end

theorem not_stuck_receive (hpc : s.procs p = .wait) (hguard : wakingStep s (.receive p)) :
    ¬ StuckBarrier { s.setPc p .loop with progress := false } := by
  intro hstuck
  rcases hguard with halone | hfly | hjournal | ⟨q, hq⟩
  · obtain ⟨q, hne, hq⟩ := hstuck.waits rfl nofun
    exact halone q hne hq
  · have hzero : s.inFlight = 0 := hstuck.idle
    omega
  · exact hjournal hstuck.empty
  · have hidle := hstuck.not_busy rfl (by rw [hpc]; rfl) q
    rw [hq] at hidle
    cases hidle

theorem not_stuck_drain (hpc : s.procs .stop = .rollbackPending)
    (hguard : wakingStep s .rollbackPending) :
    ¬ StuckBarrier { s.setPc .stop (.returned true) with
      journal := s.journal.drainAll.2
      dirty := dirty } := by
  intro hstuck
  rcases hguard with halone | htoken | hfly | ⟨q, hq⟩
  · obtain ⟨q, -, hq⟩ := hstuck.waits rfl nofun
    exact halone q hq
  · have hnone : s.progress = false := hstuck.noToken
    rw [htoken] at hnone
    cases hnone
  · have hzero : s.inFlight = 0 := hstuck.idle
    omega
  · have hidle := hstuck.not_busy rfl (by rw [hpc]; rfl) q
    rw [hq] at hidle
    cases hidle

theorem not_stuck_move (hmove : Move cfg s a s') (hguard : wakingStep s a) (h : ¬ StuckBarrier s) :
    ¬ StuckBarrier s' := by
  cases hmove with
  | still hwork hprocs =>
    intro hstuck
    refine h ⟨hprocs ▸ hstuck.waiting, hwork.inFlight ▸ hstuck.idle,
      hwork.entries ▸ hstuck.empty, hwork.progress ▸ hstuck.noToken,
      hprocs ▸ hstuck.noNotifier⟩
  | quiet _ _ hwork hprocs hbusy _ hwait =>
    intro hstuck
    exact h (hstuck.of_update hprocs hbusy hwait hwork.inFlight
      (fun hempty => hwork.entries ▸ hempty) hwork.progress)
  | idleStop =>
    intro hstuck
    refine h { hstuck with empty := ?_ }
    have hempty := hstuck.empty
    split at hempty <;> exact hempty
  | wait p _ hwork => exact fun hstuck => hwork ⟨hstuck.idle, hstuck.empty⟩
  | receive p hpc => exact not_stuck_receive hpc hguard
  | notify => exact fun hstuck => absurd hstuck.noToken (by simp)
  | push _ _ hpush =>
    intro hstuck
    exact h { hstuck with empty := Journal.entries_of_push hpush hstuck.empty }
  | take =>
    exact not_stuck_of_busy rfl (busy_of_holdsBatch (holdsBatch_continueSaves _ _))
  | save p batch todo fails dirty reply pc _ _ hnew =>
    refine not_stuck_of_busy rfl (busy_of_holdsBatch ?_)
    rcases hnew with rfl | rfl
    · exact holdsBatch_afterSaves _ _ _
    · rfl
  | dropSaves | dropRemoves | requeue | finish =>
    exact not_stuck_of_busy rfl rfl
  | ackSaves =>
    exact not_stuck_of_busy rfl (busy_of_holdsBatch (holdsBatch_afterSaves _ _ _))
  | remove p batch todo i group pc _ _ hnew | ackRemoves p batch group todo outcome pc _ hnew =>
    refine not_stuck_of_busy rfl (busy_of_holdsBatch ?_)
    rcases hnew with rfl | rfl
    · exact holdsBatch_continueRemoves _ _
    · rfl
  | drain _ hpc => exact not_stuck_drain hpc hguard

/-- No run of waking steps reaches a stuck barrier. -/
theorem barrier_not_stuck [DecidableEq V] {cfg : Config V} {s : State V}
    (h : Reach (next cfg) (Fresh cfg) wakingStep s) : ¬ StuckBarrier s := by
  refine @Reach.invariant _ _ _ _ _ (fun s => ¬ StuckBarrier s) ?_ ?_ s h
  · rintro _ ⟨backend, rfl⟩ hstuck
    obtain ⟨p, hp⟩ := hstuck.waiting
    simp [initial] at hp
  · intro s a s' hinv hguard hnext
    exact not_stuck_move (move_of_next hnext) hguard hinv

def wakingTest (s : State V) : Label V → Bool
  | .receive _ => decide (0 < s.inFlight) || !s.journal.entries.isEmpty
  | .rollbackPending => false
  | _ => true

theorem wakingStep_of_test (h : wakingTest s a = true) : wakingStep s a := by
  cases a with
  | receive =>
    simp only [wakingTest, Bool.or_eq_true, decide_eq_true_eq, Bool.not_eq_true',
      List.isEmpty_eq_false_iff] at h
    exact .inr (h.imp_right .inl)
  | rollbackPending => simp [wakingTest] at h
  | _ => trivial

theorem barrier_not_stuck_two_callers :
    ∃ s : State Nat, s.procs (.flush 0) = .loop ∧ s.procs (.flush 1) = .wait ∧
      ¬ StuckBarrier s := by
  obtain ⟨s, hreach, hloop, hwait⟩ : ∃ s, Reach (next smallConfig) (Fresh smallConfig) wakingStep s
      ∧ s.procs (.flush 0) = .loop ∧ s.procs (.flush 1) = .wait :=
    exists_of_run ⟨fun _ => none, rfl⟩ wakingTest
      [.start, .push [heroSave], .flush 0, .flush 1, .take (.worker 0), .take (.flush 0),
        .take (.flush 1), .check (.flush 0), .check (.flush 1),
        .save (.worker 0) (.results []), .finish (.worker 0), .notify (.worker 0),
        .push [heroSave], .receive (.flush 0)]
      (fun _ _ _ => wakingStep_of_test) (by decide +kernel)
  exact ⟨s, hloop, hwait, barrier_not_stuck hreach⟩

end CubeCore.FlushWakeup
