import CubeCore.RecordGuardSteps

namespace CubeCore.AcceptedSaves

open TransitionSystem SaveItems VersionStore FlusherSystem SnapshotWal ReplaySystem WalReplay
open DurableCheckpoint RecoverableRecords RecordGuard RecordGuardSteps

variable {V : Type}

/-- Every accepted save survives: a fresh `Replay` can be completed, and leaves its version or a
later one. -/
theorem accepted_save_survives [DecidableEq V] (cfg : Config V) (wal : WalConfig) (s : Durable V)
    (h : Reach (durableStep cfg wal) (Unstarted cfg wal) (protectedStep wal) s)
    (item : SaveItem V) (haccepted : item ∈ s.accepted) (hdeleted : item.target ∉ s.deleted) :
    (∃ f, Reach (replayStep wal cfg.decode) (· = begin s.redis s.flusher.backend) CleanStep f ∧
      f.pc = .done) ∧
    ∀ f, Reach (replayStep wal cfg.decode) (· = begin s.redis s.flusher.backend) CleanStep f →
      f.pc = .done → AtLeast f.backend item.target item.version := by
  have hs := guarded_of_reach h
  refine ⟨exists_clean_done hs.records s.flusher.backend, ?_⟩
  intro f hf hdone
  rw [backend_of_done hs.records s.flusher.backend (reach_restart hf) hdone]
  exact ((hs.accepted item haccepted).resolve_left hdeleted).atLeast_resolve cfg.decode

def durableConfig : Config Nat where
  journalCap := 4
  flushWorkers := 1
  batchSize := 1
  batchBytes := 100
  hasWal := true
  decode := fun _ _ => none

def heroVersion (version : Nat) : SaveItem Nat :=
  .full heroRecord.target version [1]

def unstarted : Durable Nat where
  flusher := initial durableConfig fun _ => none
  redis := .empty
  walRunning := false
  queues := fun _ => []
  workers := fun _ => none
  acking := fun _ => .idle
  submits := fun _ => .idle
  accepted := []
  deleted := []

theorem unstarted_initial : Unstarted durableConfig oneShard unstarted := ⟨_, _, .empty, rfl⟩

def submitHero (version : Nat) : List (DurableLabel Nat) :=
  [.submit 0 (fun _ => true) [heroVersion version], .hset 0, .zadd 0, .push 0 false]

def flushHero : List (DurableLabel Nat) :=
  [.flusher (.take (.worker 0)), .flusher (.save (.worker 0) (.results [])),
    .ack (.worker 0), .enqueue (.worker 0)]

def workerAck : List (DurableLabel Nat) := [.workerTake 0, .workerHdel 0, .workerZrem 0]

def outdatedTest (r : Redis) (task : AckTask) : Bool :=
  (r.snapshot task.shard task.target).all fun p =>
    p.target = task.doc && task.version.all fun v => p.version ≤ v

def protectedTest (s : Durable Nat) : DurableLabel Nat → Bool
  | .submit _ freezable items =>
    (freezeSaveItems freezable items).all fun item => (writeTask oneShard item).isSome
  | .hset c =>
    match s.submits c with
    | .write _ _ (item :: _) => (recordAt oneShard s.redis item.target).isNone
    | _ => false
  | .workerHdel i | .workerZrem i => (s.workers i).all fun w => outdatedTest s.redis w.1
  | .flusher _ | .zadd _ | .push .. | .ack _ | .enqueue _ | .workerTake _ => true
  | _ => false

theorem outdated_of_test {r : Redis} {task : AckTask} (h : outdatedTest r task = true) :
    Outdated r task := by
  intro p hp
  simp only [outdatedTest, hp, Option.all_some, Bool.and_eq_true, decide_eq_true_eq] at h
  refine ⟨h.1, ?_⟩
  intro v hv
  simpa [hv] using h.2

theorem protectedStep_of_test (s : Durable Nat) (a : DurableLabel Nat)
    (h : protectedTest s a = true) : protectedStep oneShard s a := by
  cases a with
  | submit => exact fun item hitem => List.all_eq_true.mp h item hitem
  | hset =>
    simp only [protectedTest] at h
    simp only [protectedStep]
    split at h
    · rename_i hpc
      rw [hpc]
      intro p hp
      simp [hp] at h
    · simp at h
  | workerHdel | workerZrem =>
    intro task half hworker
    simp only [protectedTest, hworker, Option.all_some] at h
    exact outdated_of_test h
  | flusher | zadd | push | ack | enqueue | workerTake => trivial
  | _ => simp [protectedTest] at h

theorem accepted_save_survives_next_version :
    ∃ s : Durable Nat,
      Reach (durableStep durableConfig oneShard) (Unstarted durableConfig oneShard)
        (protectedStep oneShard) s ∧
      heroVersion 2 ∈ s.accepted ∧ (heroVersion 2).target ∉ s.deleted ∧
      ∀ f, Reach (replayStep oneShard durableConfig.decode)
          (· = begin s.redis s.flusher.backend) CleanStep f →
        f.pc = .done → AtLeast f.backend (heroVersion 2).target 2 := by
  obtain ⟨s, hreach, haccepted, hdeleted⟩ : ∃ s : Durable Nat,
      Reach (durableStep durableConfig oneShard) (Unstarted durableConfig oneShard)
        (protectedStep oneShard) s ∧
      heroVersion 2 ∈ s.accepted ∧ (heroVersion 2).target ∉ s.deleted :=
    exists_of_run unstarted_initial protectedTest
      ([.flusher .start] ++ submitHero 1 ++ flushHero ++ workerAck ++ submitHero 2)
      (fun s a _ htest => protectedStep_of_test s a htest) (by decide +kernel)
  exact ⟨s, hreach, haccepted, hdeleted,
    (accepted_save_survives durableConfig oneShard s hreach (heroVersion 2) haccepted hdeleted).2⟩

def scanTest (_ : ReplayState Nat) : ReplayLabel → Bool
  | .scan _ => true
  | _ => false

/-- `Replay` finds nothing to apply and the backend is still behind `version`. -/
def replayMisses (s : Durable Nat) (version : Nat) : Bool :=
  (run (restrict (replayStep oneShard durableConfig.decode) scanTest)
    (begin s.redis s.flusher.backend) [.scan []]).any fun f =>
      decide (f.pc = .done) &&
        (f.backend heroRecord.target).all fun d => decide (d.version < version)

theorem exists_replay_of_misses {s : Durable Nat} {version : Nat}
    (h : replayMisses s version = true) :
    ∃ f, Reach (replayStep oneShard durableConfig.decode)
        (· = begin s.redis s.flusher.backend) CleanStep f ∧
      f.pc = .done ∧ ¬ AtLeast f.backend heroRecord.target version := by
  have hclean : ∀ (s : ReplayState Nat) (a : ReplayLabel), scanTest s a = true → CleanStep s a := by
    intro s a ha
    cases a with
    | scan => trivial
    | _ => simp [scanTest] at ha
  obtain ⟨f, hf, hdone, hall⟩ : ∃ f, Reach (replayStep oneShard durableConfig.decode)
      (· = begin s.redis s.flusher.backend) CleanStep f ∧ f.pc = .done ∧
        ((f.backend heroRecord.target).all fun d => decide (d.version < version)) = true :=
    exists_of_run rfl scanTest [.scan []] (fun s a _ ha => hclean s a ha)
      (by simpa only [Bool.decide_and, Bool.decide_eq_true, replayMisses] using h)
  refine ⟨f, hf, hdone, ?_⟩
  rintro ⟨d, hd, hv⟩
  rw [hd] at hall
  have hlt : d.version < version := of_decide_eq_true hall
  omega

/-- The acknowledgement of the first version deletes the record of the second. -/
theorem queued_ack_deletes_newer_record :
    ∃ s : Durable Nat,
      Reach (durableStep durableConfig oneShard) (Unstarted durableConfig oneShard) anyStep s ∧
      heroVersion 2 ∈ s.accepted ∧ (heroVersion 2).target ∉ s.deleted ∧
      ∃ f, Reach (replayStep oneShard durableConfig.decode)
          (· = begin s.redis s.flusher.backend) CleanStep f ∧
        f.pc = .done ∧ ¬ AtLeast f.backend (heroVersion 2).target 2 := by
  obtain ⟨s, hreach, haccepted, hdeleted, hmisses⟩ : ∃ s : Durable Nat,
      Reach (durableStep durableConfig oneShard) (Unstarted durableConfig oneShard) anyStep s ∧
      heroVersion 2 ∈ s.accepted ∧ (heroVersion 2).target ∉ s.deleted ∧
      replayMisses s 2 = true :=
    exists_of_anyRun unstarted_initial
      ([.flusher .start] ++ submitHero 1 ++ flushHero ++ submitHero 2 ++ workerAck)
      (by decide +kernel)
  exact ⟨s, hreach, haccepted, hdeleted, exists_replay_of_misses hmisses⟩

end CubeCore.AcceptedSaves
