import CubeCore.FlushBarrier

namespace CubeCore.FailedBatch

open SaveItems JournalQueue BatchDedup FlusherSystem FlusherMoves OperationAccounting FlushBarrier
open KeptOperations BatchOwnership Function TransitionSystem

variable {V : Type}

/-- The backend has confirmed a save after its first `n` results. -/
def Confirmed (n : Nat) (writes : List (SaveItem V × SaveResult)) (w : SaveItem V) : Prop :=
  ∃ result, (w, result) ∈ writes.drop n ∧ result ≠ .failed

/-- `passed` says that no save has failed so far, `tried` that a remove was handed to the
backend. -/
def Stage (b : Batch V) (confirmed : SaveItem V → Prop) (passed tried : Prop) : PC V → Prop
  | .saving batch todo =>
      batch = b ∧ passed ∧ ¬ tried ∧ ∀ w ∈ b.saves, w ∈ todo ∨ confirmed w
  | .ackSaves batch todo failed _ => batch = b ∧ ¬ tried ∧
      if failed then ¬ passed else passed ∧ ∀ w ∈ b.saves, w ∈ todo ∨ confirmed w
  | .removing batch _ | .ackRemoves batch _ _ => batch = b ∧ passed ∧ ∀ w ∈ b.saves, confirmed w
  | .requeue entries =>
      entries = saveJournalEntries b.saves ∧ ¬ passed ∧ ¬ tried ∨
        entries = removeJournalEntries b.removes ∧ passed ∧ ∀ w ∈ b.saves, confirmed w
  | _ => True

section Stages

variable {b : Batch V} {confirmed confirmed' : SaveItem V → Prop} {passed tried : Prop} {pc : PC V}

theorem Stage.mono (h : Stage b confirmed passed tried pc)
    (himp : ∀ w, confirmed w → confirmed' w) : Stage b confirmed' passed tried pc := by
  cases pc with
  | saving => exact ⟨h.1, h.2.1, h.2.2.1, fun w hw => (h.2.2.2 w hw).imp_right (himp w)⟩
  | ackSaves _ _ failed =>
    refine ⟨h.1, h.2.1, ?_⟩
    cases failed with
    | true => exact h.2.2
    | false => exact ⟨h.2.2.1, fun w hw => (h.2.2.2 w hw).imp_right (himp w)⟩
  | removing | ackRemoves => exact ⟨h.1, h.2.1, fun w hw => himp w (h.2.2 w hw)⟩
  | requeue =>
    exact h.imp_right fun hremoves =>
      ⟨hremoves.1, hremoves.2.1, fun w hw => himp w (hremoves.2.2 w hw)⟩
  | _ => trivial

theorem stage_of_not_busy (h : busy pc = false) : Stage b confirmed passed tried pc := by
  cases pc <;> trivial

theorem stage_continueRemoves (hpassed : passed) (h : ∀ w ∈ b.saves, confirmed w)
    (todo : List (RemoveKey × List RemoveId)) :
    Stage b confirmed passed tried (continueRemoves b todo) := by
  unfold continueRemoves
  split
  · trivial
  · exact ⟨rfl, hpassed, h⟩

theorem stage_afterSaves {todo : List (SaveItem V)} (failed : Bool) (htried : ¬ tried)
    (h : if failed then ¬ passed else passed ∧ ∀ w ∈ b.saves, w ∈ todo ∨ confirmed w) :
    Stage b confirmed passed tried (afterSaves b todo failed) := by
  cases failed with
  | true => exact .inl ⟨rfl, h, htried⟩
  | false =>
    obtain ⟨hpassed, h⟩ := h
    cases todo with
    | nil =>
      exact stage_continueRemoves hpassed (fun w hw => (h w hw).resolve_left List.not_mem_nil) _
    | cons => exact ⟨rfl, hpassed, htried, h⟩

end Stages

variable {cfg : Config V} {b : Batch V} {s s' : State V} {p : Pid} {n : Nat} {passed tried : Prop}

/-- The goroutine takes no other batch, and a list of results has one for each item at most. -/
def sameBatch (cfg : Config V) (p : Pid) (s : State V) (l : Label V) : Prop :=
  l ≠ .take p ∧ ∀ batch todo fails, s.procs p = .saving batch todo →
    l = .save p (.results fails) → fails.length ≤ (todo.take (chunkLength cfg todo)).length

theorem failed_mem_bulkSave {ops : List (SaveOp V)} {fails : List Bool}
    (decode : Bytes → Doc V) (backend : Backend V) (hlength : fails.length ≤ ops.length)
    (h : true ∈ fails) : .failed ∈ (bulkSave decode backend ops fails).2 := by
  induction ops generalizing backend fails with
  | nil => simp_all
  | cons op ops ih =>
    obtain _ | ⟨fail, fails⟩ := fails
    · cases h
    cases fail with
    | true => simp [bulkSave]
    | false =>
      refine List.mem_cons_of_mem _ ?_
      exact ih _ (by simpa using hlength) (by simpa using h)

theorem rejected_ne_nil {chunk : List (SaveItem V)} {fails : List Bool} (cfg : Config V)
    (backend : Backend V) (hlength : fails.length ≤ chunk.length) (h : true ∈ fails) :
    rejected (flushChunk cfg backend chunk fails).2 ≠ [] := by
  intro hnone
  have hmem : .failed ∈ (flushChunk cfg backend chunk fails).2.map Prod.snd := by
    rw [flushChunk, List.map_snd_zip (by simp [bulkSave_length])]
    exact failed_mem_bulkSave cfg.decode backend (by simpa using hlength) h
  obtain ⟨⟨w, result⟩, hmem, rfl⟩ := List.mem_map.mp hmem
  simp only [rejected, List.map_eq_nil_iff, List.filter_eq_nil_iff, decide_eq_true_eq] at hnone
  exact hnone _ hmem rfl

theorem stage_update {q : Pid} {pc : PC V} (hprocs : s'.procs = update s.procs q pc)
    (hwrites : s.writes <+: s'.writes)
    (h : Stage b (Confirmed n s.writes) passed tried (s.procs p))
    (hown : q = p → Stage b (Confirmed n s'.writes) passed tried (s.procs q) →
      Stage b (Confirmed n s'.writes) passed tried pc) :
    Stage b (Confirmed n s'.writes) passed tried (s'.procs p) := by
  have hmore : Stage b (Confirmed n s'.writes) passed tried (s.procs p) :=
    h.mono fun w ⟨result, hmem, hne⟩ => ⟨result, (hwrites.drop n).subset hmem, hne⟩
  rw [hprocs]
  rcases eq_or_ne q p with rfl | hq
  · rw [update_self]
    exact hown rfl hmore
  · rwa [update_of_ne hq.symm]

variable {l : Label V}

theorem writes_move (h : Move cfg s l s') : s.writes <+: s'.writes := by
  cases h with
  | still hwork | quiet _ _ hwork => exact hwork.writes ▸ List.prefix_refl _
  | save => exact List.prefix_append _ _
  | _ => exact List.prefix_refl _

theorem stage_move (hmove : Move cfg s l s') (htake : l ≠ .take p)
    (hclean : ∀ outcome, l = .save p outcome → clean outcome) (hn : n ≤ s.writes.length)
    (h : Stage b (Confirmed n s.writes) passed tried (s.procs p)) :
    Stage b (Confirmed n s'.writes) passed tried (s'.procs p) := by
  have hwrites := writes_move hmove
  cases hmove with
  | still hwork hprocs => exact hwork.writes ▸ hprocs ▸ h
  | idleStop | push => exact h
  | quiet _ _ _ hprocs _ hbusy =>
    exact stage_update hprocs hwrites h fun _ _ => stage_of_not_busy hbusy
  | notify q failed =>
    refine stage_update rfl hwrites h fun _ _ => ?_
    exact stage_of_not_busy (afterBatch_idle q failed).1
  | take => exact stage_update rfl hwrites h fun hq => absurd (hq ▸ rfl) htake
  | save _ batch todo fails _ reply _ hpc hreply hstage =>
    refine stage_update rfl hwrites h fun hq hold => ?_
    rw [hpc] at hold
    obtain ⟨rfl, hpassed, htried, hold⟩ := hold
    have hrejected := flushChunk_rejected cfg s.backend (todo.take (chunkLength cfg todo))
      (hclean (.results fails) (hq ▸ rfl))
    have hafter : passed ∧ ∀ w ∈ batch.saves, w ∈ todo.drop (chunkLength cfg todo) ∨
        Confirmed n (s.writes ++ reply.2) w := by
      refine ⟨hpassed, fun w hw => (hold w hw).elim (fun htodo => ?_) .inr⟩
      rw [← List.take_append_drop (chunkLength cfg todo) todo, List.mem_append] at htodo
      refine htodo.symm.imp_right fun hchunk => ?_
      subst hreply
      obtain ⟨r, hmem, hne⟩ := flushChunk_clean cfg hrejected hchunk
      refine ⟨r, ?_, hne⟩
      rw [List.drop_append_of_le_length hn]
      exact List.mem_append_right _ hmem
    rw [hreply, hrejected, ← hreply] at hstage
    rcases hstage with rfl | rfl
    · exact stage_afterSaves _ htried hafter
    · exact ⟨rfl, htried, hafter⟩
  | dropSaves q batch todo outcome _ _ hpc houtcome =>
    refine stage_update rfl hwrites h fun hq _ => ?_
    exact absurd (hclean _ (hq ▸ rfl)) (not_clean_of_dropSaves houtcome)
  | ackSaves q batch todo failed acks outcome hpc =>
    refine stage_update rfl hwrites h fun _ hold => ?_
    rw [hpc] at hold
    obtain ⟨rfl, htried, hold⟩ := hold
    exact stage_afterSaves _ htried hold
  | remove q batch todo i group pc hpc _ hstage
  | ackRemoves q batch group todo outcome pc hpc hstage =>
    refine stage_update rfl hwrites h fun _ hold => ?_
    rw [hpc] at hold
    obtain ⟨rfl, hold⟩ := hold
    rcases hstage with rfl | rfl
    · exact stage_continueRemoves hold.1 hold.2 _
    · exact ⟨rfl, hold⟩
  | dropRemoves _ _ _ hpc =>
    refine stage_update rfl hwrites h fun _ hold => .inr ?_
    rcases hpc with hpc | ⟨group, hpc⟩ <;> rw [hpc] at hold <;> obtain ⟨rfl, hold⟩ := hold <;>
      exact ⟨rfl, hold⟩
  | _ => exact stage_update rfl hwrites h fun _ _ => trivial

/-- A save that fails ends the saves of the batch. -/
theorem stage_failed {outcome : SaveOutcome} {confirmed confirmed' : SaveItem V → Prop}
    (hnext : saveStep cfg s p outcome = some s') (hbatch : sameBatch cfg p s (.save p outcome))
    (hfailed : ¬ clean outcome) (h : Stage b confirmed passed tried (s.procs p)) :
    Stage b confirmed' False tried (s'.procs p) := by
  revert hnext
  fun_cases saveStep cfg s p outcome with
  | case1 => exact absurd rfl hfailed
  | case2 batch todo hpc | case3 batch todo hpc =>
    rintro ⟨⟩
    rw [hpc] at h
    obtain ⟨rfl, -, htried, -⟩ := h
    simp only [State.setPc, update_self]
    exact .inl ⟨rfl, id, htried⟩
  | case4 batch todo hpc chunk rest fails reply failed =>
    rintro ⟨⟩
    have hfails : failed = true := by
      have hrejected := rejected_ne_nil cfg s.backend (hbatch.2 _ _ _ hpc rfl) (not_not.mp hfailed)
      simpa [failed] using hrejected
    rw [hpc] at h
    obtain ⟨rfl, -, htried, -⟩ := h
    simp only [State.setPc, update_self, hfails]
    split
    · exact ⟨rfl, htried, id⟩
    · exact .inl ⟨rfl, id, htried⟩
  | case5 => rintro ⟨⟩

section Runs

variable [DecidableEq V] {s₀ : State V} {entries order : List (JournalEntry V)}
  {l : Label V} {labels : List (Label V)}

/-- No save of `p` has failed for good. -/
def Passed (p : Pid) (labels : List (Label V)) : Prop :=
  ∀ outcome, .save p outcome ∈ labels → clean outcome

/-- `p` has handed removes to the backend. -/
def Tried (p : Pid) (labels : List (Label V)) : Prop :=
  ∃ i outcome, .remove p i outcome ∈ labels

theorem stage_next (hbatch : sameBatch cfg p s l) (hnext : next cfg s l = some s')
    (hn : n ≤ s.writes.length) (h : Stage b (Confirmed n s.writes) passed tried (s.procs p)) :
    Stage b (Confirmed n s'.writes) (passed ∧ Passed p [l]) (tried ∨ Tried p [l])
      (s'.procs p) := by
  -- a remove is handed over at a stage that does not speak of `tried`
  have hstage : Stage b (Confirmed n s.writes) passed (tried ∨ Tried p [l]) (s.procs p) := by
    by_cases htried : Tried p [l]
    · obtain ⟨i, outcome, hl⟩ := htried
      obtain rfl := List.mem_singleton.mp hl
      simp only [next, removeStep] at hnext
      split at hnext
      · rename_i hpc
        rw [hpc] at h ⊢
        exact h
      · cases hnext
    · rwa [or_iff_left htried]
  by_cases hpassed : Passed p [l]
  · rw [and_iff_left hpassed]
    exact stage_move (move_of_next hnext) hbatch.1
      (fun outcome hl => hpassed outcome (by simp [hl])) hn hstage
  · have hnot : ¬ (passed ∧ Passed p [l]) := fun hboth => hpassed hboth.2
    rw [eq_false hnot]
    simp only [Passed, not_forall] at hpassed
    obtain ⟨outcome, hl, hfailed⟩ := hpassed
    obtain rfl := List.mem_singleton.mp hl
    exact stage_failed hnext hbatch hfailed hstage

theorem stage_path (hpath : Path (next cfg) (sameBatch cfg p) s labels s')
    (hn : n ≤ s.writes.length) (h : Stage b (Confirmed n s.writes) passed tried (s.procs p)) :
    Stage b (Confirmed n s'.writes) (passed ∧ Passed p labels) (tried ∨ Tried p labels)
      (s'.procs p) := by
  induction hpath generalizing passed tried with
  | nil => simpa [Passed, Tried] using h
  | cons hbatch hnext _ ih =>
    have hrest := ih (hn.trans (writes_move (move_of_next hnext)).length_le)
      (stage_next hbatch hnext hn h)
    simpa [Passed, Tried, or_imp, forall_and, and_assoc, exists_or, or_assoc] using hrest

/-- A batch that fails loses no save. It loses its removes, without a call for them, when a save has
failed. -/
theorem failed_batch_kept_iff
    (hstart : s₀.procs p = continueSaves (dedup entries) (dedup entries).saves)
    (hpath : Path (next cfg) (sameBatch cfg p) s₀ labels s)
    (hopen : s.journal.closed = false) (hfail : next cfg s (.requeue p order) = some s') :
    s'.procs p = .finish true ∧ s'.journal.entries = order ++ s.journal.entries ∧
      (∀ w ∈ (dedup entries).saves, Confirmed s₀.writes.length s'.writes w ∨ w ∈ opsOf order) ∧
      (removeOps (dedup entries).removes ⊆ opsOf order ↔
        removeOps (V := V) (dedup entries).removes = [] ∨ Passed p labels) ∧
      (¬ Passed p labels → ¬ Tried p labels) := by
  have hstage : Stage (dedup entries) (Confirmed s₀.writes.length s₀.writes) True False
      (s₀.procs p) := by
    rw [hstart]
    exact stage_afterSaves false not_false ⟨trivial, fun w hw => .inl hw⟩
  have hstage := stage_path hpath le_rfl hstage
  simp only [true_and, false_or] at hstage
  simp only [next] at hfail
  split at hfail
  · rename_i queued hpc
    split_ifs at hfail with hperm
    cases hfail
    rw [hpc] at hstage
    refine ⟨update_self .., ?_, ?_⟩
    · simp only [Journal.pushFront, hopen, Bool.false_eq_true, if_false]
      split <;> simp_all
    rw [List.subset_def]
    simp only [mem_opsOf_of_perm hperm]
    rcases hstage with ⟨rfl, hfailed, htried⟩ | ⟨rfl, hpassed, hsaved⟩
    · rw [opsOf_saveJournalEntries]
      refine ⟨fun w hw => .inr hw, ?_, fun _ => htried⟩
      rw [or_iff_left hfailed, List.eq_nil_iff_forall_not_mem]
      refine forall_congr' fun x => imp_congr_right fun hx => ⟨fun hsave => ?_, False.elim⟩
      obtain ⟨group, -, r, -, rfl⟩ := mem_removeOps.mp hx
      obtain ⟨-, hsaved, -⟩ := saveMap_provenance (mem_saves_iff.mp hsave)
      cases hsaved
    · refine ⟨fun w hw => .inl (hsaved w hw), ?_, fun hfailed => absurd hpassed hfailed⟩
      exact ⟨fun _ => .inr hpassed, fun _ x hx => hx⟩
  · cases hfail

end Runs

def mageRemove : SaveItem Nat := .full ⟨"db", .global, "mage", 8⟩ 0 []

def pairEntries : List (JournalEntry Nat) := [⟨[heroSave, mageRemove]⟩]

def pairStart : State Nat :=
  (initial smallConfig fun _ => none).setPc .stop
    (continueSaves (dedup pairEntries) (dedup pairEntries).saves)

theorem failed_batch_kept_iff_remove :
    ∃ s s' : State Nat, next smallConfig s (.requeue .stop [⟨[mageRemove]⟩]) = some s' ∧
      s'.journal.entries = ⟨[mageRemove]⟩ :: s.journal.entries ∧
      removeOps (dedup pairEntries).removes ⊆ [mageRemove] := by
  let labels : List (Label Nat) := [.save .stop (.results [false]), .remove .stop 0 (.error true)]
  have hpassed : Passed .stop labels := by simp [Passed, labels, clean]
  have hstart : pairStart.procs .stop =
      continueSaves (dedup pairEntries) (dedup pairEntries).saves := by
    simp [pairStart, State.setPc]
  obtain ⟨s, hpath, hs⟩ : ∃ s,
      Path (next smallConfig) (sameBatch smallConfig .stop) pairStart labels s ∧
        !s.journal.closed && (next smallConfig s (.requeue .stop [⟨[mageRemove]⟩])).isSome := by
    refine ⟨_, .cons ⟨by simp, ?_⟩ rfl (.cons ⟨by simp, by simp⟩ rfl .nil), by decide +kernel⟩
    rintro batch todo fails hpc ⟨⟩
    cases hpc
    decide +kernel
  rw [Bool.and_eq_true, Bool.not_eq_true', Option.isSome_iff_exists] at hs
  obtain ⟨hopen, s', hfail⟩ := hs
  obtain ⟨-, hentries, -, hremoves, -⟩ := failed_batch_kept_iff hstart hpath hopen hfail
  exact ⟨s, s', hfail, hentries, hremoves.mpr (.inr hpassed)⟩

/-- A save fails and the batch's remove of another document is gone. -/
theorem failed_batch_loses_remove :
    ∃ s : State Nat, Reach (next smallConfig) (· = initial smallConfig fun _ => none) anyStep s ∧
      s.procs (.worker 0) = .finish true ∧ s.journal.closed = false ∧
      s.admitted[1]? = some (mageRemove.stamp 1) ∧ s.removed = [] ∧
      ∀ item ∈ opsOf s.journal.entries, item.target ≠ mageRemove.target := by
  exact exists_of_anyRun rfl
    [.start, .push [heroSave, mageRemove], .take (.worker 0),
      .save (.worker 0) (.results [true]), .requeue (.worker 0) [⟨[heroSave.stamp 0]⟩]]
    (by decide +kernel)

end CubeCore.FailedBatch
