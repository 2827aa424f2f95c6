import CubeCore.FlusherSystem

namespace CubeCore.FlusherMoves

open SaveItems JournalQueue BatchDedup VersionStore FlusherSystem TransitionSystem

variable {V : Type}

def removeOps (removes : List (RemoveKey × List RemoveId)) : List (SaveItem V) :=
  opsOf (removeJournalEntries removes)

/-- The operations a goroutine will still hand to the backend or put back. -/
def ownedOps : PC V → List (SaveItem V)
  | .saving batch _ => batch.saves ++ removeOps batch.removes
  | .ackSaves batch todo failed _ =>
    if failed then batch.saves
    else (if todo = [] then [] else batch.saves) ++ removeOps batch.removes
  | .removing batch _ => removeOps batch.removes
  | .ackRemoves batch _ _ => removeOps batch.removes
  | .requeue entries => opsOf entries
  | _ => []

/-- The goroutine is between `takeBatch` and the decrement in `finishBatch`. -/
def holdsBatch : PC V → Bool
  | .saving .. | .ackSaves .. | .removing .. | .ackRemoves .. | .requeue _ | .finish _ => true
  | _ => false

/-- The goroutine is between `takeBatch` and its `finishBatch` notification. -/
def busy (pc : PC V) : Bool :=
  holdsBatch pc || match pc with
    | .notify _ => true
    | _ => false

def flushedOk : PC V → Bool
  | .returned false | .stopWal => true
  | _ => false

/-- `Stop` has closed the journal. -/
def pastClose : PC V → Bool
  | .idle | .closeJournal => false
  | _ => true

/-- `Stop` is about to return an error. -/
def stopFailing : PC V → Bool
  | .finish true | .notify true | .rollbackPending | .returned true => true
  | _ => false

structure SameWork (s s' : State V) : Prop where
  entries : s'.journal.entries = s.journal.entries
  closed : s.journal.closed = true → s'.journal.closed = true
  backend : s'.backend = s.backend
  admitted : s'.admitted = s.admitted
  writes : s'.writes = s.writes
  removed : s'.removed = s.removed
  inFlight : s'.inFlight = s.inFlight
  progress : s'.progress = s.progress
  idleStops : s'.idleStops = s.idleStops

/-- `still` and `quiet` steps leave every operation where it is; a `quiet` step moves one goroutine
that has no batch. -/
inductive Move (cfg : Config V) (s : State V) : Label V → State V → Prop
  | still : SameWork s s' → s'.procs = s.procs → s'.since = s.since → Move cfg s a s'
  | quiet (p : Pid) (pc : PC V) : SameWork s s' → s'.procs = Function.update s.procs p pc →
      busy (s.procs p) = false → busy pc = false → pc ≠ .wait →
      (flushedOk pc = true → flushedOk (s.procs p) = true ∨
        (s.inFlight = 0 ∧ s.journal.entries = [])) →
      (p = .stop → pastClose pc = true →
        pastClose (s.procs .stop) = true ∨ s'.journal.closed = true) →
      (p = .stop → stopFailing (s.procs .stop) = false) →
      (∀ i, s'.since i = s.since i ∨
        (s'.procs (.flush i) = .loop ∧ s'.since i = s.admitted.length)) →
      Move cfg s a s'
  | idleStop : s.running = false →
      Move cfg s .stop { s with
        journal := if s.stopped then s.journal else s.journal.close
        stopped := true
        idleStops := s.idleStops + 1 }
  | wait (p : Pid) : s.procs p = .check →
      ¬ (s.inFlight = 0 ∧ s.journal.entries = []) →
      Move cfg s (.check p) (s.setPc p .wait)
  | receive (p : Pid) : s.procs p = .wait → s.progress = true →
      Move cfg s (.receive p) { s.setPc p .loop with progress := false }
  | notify (p : Pid) (failed : Bool) : s.procs p = .notify failed →
      Move cfg s (.notify p) { s.setPc p (afterBatch p failed) with progress := true }
  | push (items : List (SaveItem V)) (journal : Journal V) :
      s.journal.push (stampItems s.admitted.length items) = some journal →
      Move cfg s (.push items) { s with
        journal := journal
        admitted := s.admitted ++ stampItems s.admitted.length items }
  | take (p : Pid) : canTake cfg s p = true →
      (s.journal.tryPopBatch cfg.batchSize).1 ≠ [] →
      Move cfg s (.take p)
        { s.setPc p (continueSaves (dedup (s.journal.tryPopBatch cfg.batchSize).1)
            (dedup (s.journal.tryPopBatch cfg.batchSize).1).saves) with
          journal := (s.journal.tryPopBatch cfg.batchSize).2
          inFlight := s.inFlight + 1 }
  | save (p : Pid) (batch : Batch V) (todo : List (SaveItem V)) (fails : List Bool)
      (dirty : Nat → UInt64) (reply : Backend V × List (SaveItem V × SaveResult))
      (pc : PC V) :
      s.procs p = .saving batch todo →
      reply = flushChunk cfg s.backend (todo.take (chunkLength cfg todo)) fails →
      (pc = afterSaves batch (todo.drop (chunkLength cfg todo))
          (!(rejected reply.2).isEmpty) ∨
        pc = .ackSaves batch (todo.drop (chunkLength cfg todo))
          (!(rejected reply.2).isEmpty) (acked reply.2)) →
      Move cfg s (.save p (.results fails)) { s.setPc p pc with
        backend := reply.1
        dirty := dirty
        writes := s.writes ++ reply.2 }
  | dropSaves (p : Pid) (batch : Batch V) (todo : List (SaveItem V))
      (outcome : SaveOutcome) (dirty : Nat → UInt64) (backend : Backend V) :
      s.procs p = .saving batch todo →
      ((outcome = .error true ∧ backend = s.backend) ∨
        ∃ fails, outcome = .mismatch fails ∧ backend =
          (flushChunk cfg s.backend (todo.take (chunkLength cfg todo)) fails).1) →
      Move cfg s (.save p outcome)
        { s.setPc p (.requeue (saveJournalEntries batch.saves)) with
          backend := backend
          dirty := dirty }
  | ackSaves (p : Pid) (batch : Batch V) (todo : List (SaveItem V)) (failed : Bool)
      (acks : List (SaveItem V)) (outcome : CallOutcome) :
      s.procs p = .ackSaves batch todo failed acks →
      Move cfg s (.ack p outcome) (s.setPc p (afterSaves batch todo failed))
  | remove (p : Pid) (batch : Batch V) (todo : List (RemoveKey × List RemoveId))
      (i : Nat) (group : RemoveKey × List RemoveId) (pc : PC V) :
      s.procs p = .removing batch todo → todo[i]? = some group →
      (pc = continueRemoves batch (todo.eraseIdx i) ∨
        pc = .ackRemoves batch group (todo.eraseIdx i)) →
      Move cfg s (.remove p i .ok) { s.setPc p pc with
        backend := VersionStore.remove s.backend
          (group.2.map fun r => group.1.target r.id)
        removed := s.removed ++
          group.2.map fun r => (group.1.target r.id, r.stamps) }
  | ackRemoves (p : Pid) (batch : Batch V) (group : RemoveKey × List RemoveId)
      (todo : List (RemoveKey × List RemoveId)) (outcome : CallOutcome) (pc : PC V) :
      s.procs p = .ackRemoves batch group todo →
      (pc = continueRemoves batch todo ∨ pc = .removing batch (group :: todo)) →
      Move cfg s (.ack p outcome) (s.setPc p pc)
  | dropRemoves (p : Pid) (batch : Batch V) (todo : List (RemoveKey × List RemoveId)) :
      (s.procs p = .removing batch todo ∨
        ∃ group, s.procs p = .ackRemoves batch group todo) →
      Move cfg s a (s.setPc p (.requeue (removeJournalEntries batch.removes)))
  | requeue (p : Pid) (entries order : List (JournalEntry V)) :
      s.procs p = .requeue entries → order.Perm entries →
      Move cfg s (.requeue p order) { s.setPc p (.finish true) with
        journal := (s.journal.pushFront order).1 }
  | finish (p : Pid) (failed : Bool) : s.procs p = .finish failed →
      Move cfg s (.finish p) { s.setPc p (.notify failed) with
        inFlight := s.inFlight - 1 }
  | drain (dirty : Nat → UInt64) : s.procs .stop = .rollbackPending →
      Move cfg s .rollbackPending { s.setPc .stop (.returned true) with
        journal := s.journal.drainAll.2
        dirty := dirty }

theorem SameWork.refl (s : State V) : SameWork s s := ⟨rfl, id, rfl, rfl, rfl, rfl, rfl, rfl, rfl⟩

theorem Move.refl (cfg : Config V) (s : State V) (a : Label V) : Move cfg s a s :=
  .still (.refl s) rfl rfl

variable {cfg : Config V} {s : State V} {p : Pid}

theorem Move.ofSetPc (hbusy : busy (s.procs p) = false) (hbusy' : busy pc = false)
    (hwait : pc ≠ .wait) (hdone : flushedOk pc = true → flushedOk (s.procs p) = true ∨
      (s.inFlight = 0 ∧ s.journal.entries = []))
    (hstop : p = .stop → pastClose (s.procs .stop) = true ∧
      stopFailing (s.procs .stop) = false) : Move cfg s a (s.setPc p pc) :=
  .quiet p pc ⟨rfl, id, rfl, rfl, rfl, rfl, rfl, rfl, rfl⟩ rfl hbusy hbusy' hwait hdone
    (fun hp _ => .inl (hstop hp).1) (fun hp => (hstop hp).2) fun _ => .inl rfl

theorem canTake_pc (h : canTake cfg s p = true) :
    (s.procs p = .idle ∧ ∃ i, p = .worker i) ∨ s.procs p = .loop := by
  simp only [canTake] at h
  split at h
  · rename_i i hpc
    exact .inl ⟨hpc, i, rfl⟩
  · exact .inr ‹_›
  · exact .inr ‹_›
  · simp at h

theorem canTake_idle (h : canTake cfg s p = true) :
    busy (s.procs p) = false ∧ (p = .stop → pastClose (s.procs .stop) = true ∧
      stopFailing (s.procs .stop) = false) := by
  rcases canTake_pc h with ⟨hpc, i, rfl⟩ | hpc
  · rw [hpc]
    exact ⟨rfl, by simp⟩
  refine ⟨by rw [hpc]; rfl, ?_⟩
  rintro rfl
  rw [hpc]
  exact ⟨rfl, rfl⟩

variable {s' : State V}

theorem move_of_take (h : takeStep cfg s p = some s') : Move cfg s (.take p) s' := by
  apply of_eq_some h
  fun_cases takeStep cfg s p with
  | case1 _ _ _ hcan =>
    obtain ⟨hbusy, hclose⟩ := canTake_idle hcan
    split
    · exact .ofSetPc hbusy rfl (by simp) (by simp [flushedOk]) hclose
    · exact .refl cfg s _
  | case2 p hcan =>
    obtain ⟨hbusy, hclose⟩ := canTake_idle hcan
    exact .ofSetPc hbusy rfl (by simp) (by simp [flushedOk]) hclose
  | case3 p hcan _ hne => exact .take p hcan hne
  | case4 => trivial

theorem move_of_save (h : saveStep cfg s p outcome = some s') :
    Move cfg s (.save p outcome) s' := by
  apply of_eq_some h
  fun_cases saveStep cfg s p outcome with
  | case1 => exact .refl cfg s _
  | case2 batch todo hpc => exact .dropSaves p batch todo _ _ _ hpc (.inl ⟨rfl, rfl⟩)
  | case3 batch todo hpc _ fails => exact .dropSaves p batch todo _ _ _ hpc (.inr ⟨fails, rfl, rfl⟩)
  | case4 batch todo hpc _ _ fails =>
    refine .save p batch todo fails _ _ _ hpc rfl ?_
    split
    · exact .inr rfl
    · exact .inl rfl
  | case5 => trivial

theorem move_of_ack (h : ackStep s p outcome = some s') :
    Move cfg s (.ack p outcome) s' := by
  apply of_eq_some h
  fun_cases ackStep s p outcome with
  | case1 outcome batch todo failed acks hpc => exact .ackSaves p batch todo failed acks outcome hpc
  | case2 batch group todo hpc => exact .ackRemoves p batch group todo _ _ hpc (.inl rfl)
  | case3 batch group todo hpc => exact .ackRemoves p batch group todo _ _ hpc (.inr rfl)
  | case4 batch group todo hpc => exact .dropRemoves p batch todo (.inr ⟨group, hpc⟩)
  | case5 => trivial

theorem move_of_remove (h : removeStep cfg s p i outcome = some s') :
    Move cfg s (.remove p i outcome) s' := by
  apply of_eq_some h
  fun_cases removeStep cfg s p i outcome with
  | case2 batch todo hpc group hgroup =>
    refine .remove p batch todo i group _ hpc hgroup ?_
    split
    · exact .inr rfl
    · exact .inl rfl
  | case3 => exact .refl cfg s _
  | case4 batch todo hpc => exact .dropRemoves p batch todo (.inl hpc)
  | case1 | case5 => trivial

theorem move_of_join (h : joinStep cfg s ok = some s') : Move cfg s (.join ok) s' := by
  have hjoin : ∀ {pc'}, s.procs .stop = .joinWorkers → busy pc' = false → pc' ≠ .wait →
      flushedOk pc' = false → Move cfg s (.join ok) (s.setPc .stop pc') := by
    intro pc' hpc hbusy hwait hflushed
    refine .ofSetPc (by rw [hpc]; rfl) hbusy hwait (by simp [hflushed]) fun _ => ?_
    rw [hpc]
    exact ⟨rfl, rfl⟩
  apply of_eq_some h
  fun_cases joinStep cfg s ok with
  | case1 hpc | case3 hpc => exact hjoin hpc rfl nofun rfl
  | _ => trivial

theorem flushAllDone_idle (p : Pid) (failed : Bool) :
    busy (flushAllDone p failed : PC V) = false ∧ (flushAllDone p failed : PC V) ≠ .wait := by
  cases p <;> cases failed <;> exact ⟨rfl, by simp [flushAllDone]⟩

theorem flushedOk_flushAllDone_true (p : Pid) : flushedOk (flushAllDone p true : PC V) = false := by
  cases p <;> rfl

theorem afterBatch_idle (p : Pid) (failed : Bool) :
    busy (afterBatch p failed : PC V) = false ∧ (afterBatch p failed : PC V) ≠ .wait ∧
      flushedOk (afterBatch p failed : PC V) = false := by
  cases p <;> cases failed <;> exact ⟨rfl, by simp [afterBatch, flushAllDone], rfl⟩

theorem move_of_next [DecidableEq V] (h : next cfg s a = some s') :
    Move cfg s a s' := by
  apply of_eq_some h
  fun_cases next cfg s a with
  | case2 => exact .still ⟨rfl, id, rfl, rfl, rfl, rfl, rfl, rfl, rfl⟩ rfl rfl
  | case3 items =>
    refine elim_of_eq_some fun _ h => ?_
    obtain ⟨journal, hpush, rfl⟩ := Option.map_eq_some_iff.mp h
    exact .push items journal hpush
  | case4 i _ hpc | case5 i _ _ hpc =>
    refine .quiet (.flush i) .loop ⟨rfl, id, rfl, rfl, rfl, rfl, rfl, rfl, rfl⟩ rfl
      (by rw [hpc]; rfl) rfl (by simp) (by simp [flushedOk]) (by simp) (by simp) ?_
    intro j
    rcases eq_or_ne j i with rfl | hne
    · exact .inr ⟨by simp [State.setPc], by simp⟩
    · exact .inl (by simp [hne])
  | case8 _ hpc =>
    exact .quiet .stop .closeJournal ⟨rfl, id, rfl, rfl, rfl, rfl, rfl, rfl, rfl⟩ rfl
      (by rw [hpc]; rfl) rfl (by simp) (by simp [flushedOk]) (by simp [pastClose])
      (fun _ => by rw [hpc]; rfl) fun _ => .inl rfl
  | case10 hrunning => exact .idleStop (by simpa using hrunning)
  | case11 => exact elim_of_eq_some fun _ => move_of_take
  | case12 p hpc =>
    split
    · rename_i hidle
      obtain ⟨hbusy, hwait⟩ := flushAllDone_idle (V := V) p false
      refine .ofSetPc (by rw [hpc]; rfl) hbusy hwait (fun _ => .inr hidle) ?_
      rintro rfl
      rw [hpc]
      exact ⟨rfl, rfl⟩
    · rename_i hwork
      exact .wait p hpc hwork
  | case14 p hprogress hpc => exact .receive p hpc hprogress
  | case16 p hpc | case17 p hpc =>
    obtain ⟨hbusy, hwait⟩ := flushAllDone_idle (V := V) p true
    refine .ofSetPc (by rw [hpc]; rfl) hbusy hwait (by simp [flushedOk_flushAllDone_true]) ?_
    rintro rfl
    rw [hpc]
    exact ⟨rfl, rfl⟩
  | case19 => exact elim_of_eq_some fun _ => move_of_save
  | case20 => exact elim_of_eq_some fun _ => move_of_ack
  | case21 => exact elim_of_eq_some fun _ => move_of_remove
  | case22 p order entries hpc hperm => exact .requeue p entries order hpc hperm
  | case25 p failed hpc => exact .finish p failed hpc
  | case27 p failed hpc => exact .notify p failed hpc
  | case29 _ hpc => exact .ofSetPc (by rw [hpc]; rfl) rfl (by simp) (by simp [flushedOk]) (by simp)
  | case32 hpc =>
    exact .quiet .stop .joinWorkers
      ⟨rfl, fun _ => rfl, rfl, rfl, rfl, rfl, rfl, rfl, rfl⟩ rfl
      (by rw [hpc]; rfl) rfl (by simp) (by simp [flushedOk])
      (fun _ _ => .inr rfl) (fun _ => by rw [hpc]; rfl) fun _ => .inl rfl
  | case34 => exact elim_of_eq_some fun _ => move_of_join
  | case35 hpc => exact .drain _ hpc
  | case37 _ hpc =>
    exact .ofSetPc (by rw [hpc]; rfl) rfl (by simp)
      (fun _ => .inl (by rw [hpc]; rfl)) fun _ => by rw [hpc]; exact ⟨rfl, rfl⟩
  | _ => trivial

end CubeCore.FlusherMoves
