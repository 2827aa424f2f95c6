import CubeCore.OperationOrigin
import CubeCore.PatchMerge

namespace CubeCore.FieldLayout

open SaveItems JournalQueue BatchDedup KeptOperations VersionStore FlusherSystem FlusherMoves List
open Nat Function BatchOwnership PatchMerge

variable {V : Type}

/-- The save of `t` that a goroutine has taken and not yet written. -/
def pendingSave (t : Target) : PC V → Option (SaveItem V)
  | .saving _ todo | .ackSaves _ todo _ _ => todo.find? fun w => w.target = t
  | _ => none

def savesOf (t : Target) (ops : List (SaveItem V)) : List (SaveItem V) :=
  ops.filter fun x => x.target = t

/-- Local facts: the saves a goroutine has left are of distinct targets. -/
def Distinct : PC V → Prop
  | .saving _ todo | .ackSaves _ todo _ _ => (todo.map SaveItem.target).Nodup
  | _ => True

variable (batch : Batch V) (todo : List (RemoveKey × List RemoveId))

theorem distinct_continueRemoves : Distinct (continueRemoves batch todo) := by
  simp only [continueRemoves]
  split <;> trivial

theorem distinct_continueSaves {batch : Batch V} {todo} (h : (todo.map SaveItem.target).Nodup) :
    Distinct (continueSaves batch todo) := by
  cases todo with
  | nil => exact distinct_continueRemoves batch batch.removes
  | cons => exact h

theorem distinct_rule : StageRule (Distinct : PC V → Prop) where
  free := by
    intro pc hpc
    cases pc <;> trivial
  done := fun _ => trivial
  taken := fun entries => distinct_continueSaves (saves_nodup entries)
  saved := by
    intro batch todo n failed acks h
    exact h.sublist ((drop_sublist n todo).map _)
  acked := by
    intro batch todo failed acks h
    cases failed with
    | true => trivial
    | false => exact distinct_continueSaves h
  savesFailed := fun _ _ _ => trivial
  removed := fun _ _ _ _ _ _ => trivial
  ackedRemove := fun batch _ todo _ => distinct_continueRemoves batch todo
  repeated := fun _ _ _ _ => trivial
  removesFailed := fun _ _ _ => trivial

/-- No write has failed, and what is put back is not about `t`. -/
def Calm (t : Target) : PC V → Prop
  | .ackSaves _ _ failed _ => failed = false
  | .requeue entries => ∀ x ∈ opsOf entries, x.target ≠ t
  | _ => True

variable (t : Target)

theorem pendingSave_continueRemoves (batch : Batch V) (todo : List (RemoveKey × List RemoveId)) :
    pendingSave t (continueRemoves batch todo) = none := by
  simp only [continueRemoves]
  split <;> rfl

theorem pendingSave_continueSaves (batch : Batch V) (todo : List (SaveItem V)) :
    pendingSave t (continueSaves batch todo) = todo.find? fun w => w.target = t := by
  cases todo with
  | nil => exact pendingSave_continueRemoves t batch batch.removes
  | cons => rfl

variable {pc : PC V}

theorem pendingSave_of_free {t : Target} (h : holdsBatch pc = false) : pendingSave t pc = none := by
  cases pc <;> first | rfl | simp [holdsBatch] at h

theorem calm_continueRemoves (batch : Batch V) (todo : List (RemoveKey × List RemoveId)) :
    Calm t (continueRemoves batch todo) := by
  simp only [continueRemoves]
  split <;> trivial

theorem calm_continueSaves (batch : Batch V) (todo : List (SaveItem V)) :
    Calm t (continueSaves batch todo) := by
  cases todo with
  | nil => exact calm_continueRemoves t batch batch.removes
  | cons => trivial

/-- `w` takes the document from the first `l` saves of `hist` to the first `r`. -/
structure Writes (decode : Bytes → Doc V) (start : Option (Stored (Doc V)))
    (hist : List (SaveItem V)) (l r : Nat) (w : SaveItem V) : Prop where
  lt : l < r
  last : ∃ x, hist[r - 1]? = some x ∧ x.version = w.version
  after : ∃ d, docAfter decode start (hist.take r) = some d ∧ d.version = w.version ∧
    (w.mode = .full → ∀ doc, writeItem decode w doc = d.doc) ∧
    (w.mode = .patch →
      writeItem decode w ((docAfter decode start (hist.take l)).map Stored.doc) = d.doc)

variable {w : SaveItem V}

theorem Writes.append {decode start hist} {l r : Nat} (h : Writes decode start hist l r w)
    (hr : r ≤ hist.length) (more : List (SaveItem V)) :
    Writes decode start (hist ++ more) l r w := by
  have hlr := h.lt
  refine ⟨hlr, ?_, ?_⟩
  · rw [getElem?_append_left (by omega)]
    exact h.last
  · rw [take_append_of_le_length hr, take_append_of_le_length (by omega)]
    exact h.after

theorem Writes.commit (h : Writes decode start hist l r w)
    (hinc : Increasing SaveItem.version start hist) (hk : k ≤ hist.length)
    (hstored : b w.target = docAfter decode start (hist.take k))
    (hpatch : w.mode = .patch → k = l ∨ r ≤ k) :
    saveOne decode b w.toOp w.target = docAfter decode start (hist.take (max k r)) := by
  obtain ⟨x, hx, hxv⟩ := h.last
  obtain ⟨d, hd, hdv, hfull, hpat⟩ := h.after
  have hlr := h.lt
  have hacc : accepts (b w.target) w.version = true ↔ k < r := by
    rw [hstored, ← hxv]
    rw [docAfter, accepts_history_iff hinc hx hk]
    omega
  have hself : saveOne decode b w.toOp w.target =
      if accepts (b w.target) w.version then
        some ⟨w.version, writeItem decode w ((b w.target).map Stored.doc)⟩
      else b w.target := save_self b _ _ _
  rw [hself]
  split_ifs with hno
  · have hkr := hacc.mp hno
    rw [max_eq_right (le_of_lt hkr), hd]
    have hdoc : writeItem decode w ((b w.target).map Stored.doc) = d.doc := by
      cases hmode : w.mode with
      | full => exact hfull hmode _
      | patch =>
        rcases hpatch hmode with rfl | hle
        · rw [hstored]
          exact hpat hmode
        · omega
    rw [hdoc, ← hdv]
  · have hrk : r ≤ k := by
      rcases lt_or_ge k r with hlt | hge
      · exact absurd (hacc.mpr hlt) hno
      · exact hge
    rw [max_eq_left hrk, hstored]

/-- The first `k` saves of `t` are in the backend, the first `j` were taken, and a goroutine holds
those from `(seg p).1` to `(seg p).2`. -/
structure Layout (decode : Bytes → Doc V) (start : Option (Stored (Doc V))) (t : Target)
    (s : State V) (j k : Nat) (seg : Pid → Nat × Nat) : Prop where
  increasing : Increasing SaveItem.version start (savesOf t s.admitted)
  wellFormed : ∀ x ∈ savesOf t s.admitted, WellFormed x
  taken_le : j ≤ (savesOf t s.admitted).length
  journal : savesOf t (opsOf s.journal.entries) = (savesOf t s.admitted).drop j
  applied_le : k ≤ j
  stored : s.backend t = docAfter decode start ((savesOf t s.admitted).take k)
  pending : ∀ p w, pendingSave t (s.procs p) = some w →
    (seg p).2 ≤ j ∧ Writes decode start (savesOf t s.admitted) (seg p).1 (seg p).2 w
  patches : ∀ p w, pendingSave t (s.procs p) = some w → w.mode = .patch →
    (k = (seg p).1 ∨ (seg p).2 ≤ k) ∧
      ∀ q, q ≠ p → pendingSave t (s.procs q) ≠ none → (seg p).2 ≤ (seg q).1
  frontier : k = j ∨ ∃ p, pendingSave t (s.procs p) ≠ none ∧ (seg p).2 = j

section LayoutSteps

variable {decode : Bytes → Doc V} {start : Option (Stored (Doc V))} {t : Target}
  {s s' : State V} {j k : Nat} {seg : Pid → Nat × Nat}

variable (h : Layout decode start t s j k seg)
include h

theorem Layout.congr (hadm : s'.admitted = s.admitted)
    (hjournal : savesOf t (opsOf s'.journal.entries) = savesOf t (opsOf s.journal.entries))
    (hbackend : s'.backend t = s.backend t)
    (hprocs : ∀ p, pendingSave t (s'.procs p) = pendingSave t (s.procs p)) :
    Layout decode start t s' j k seg where
  increasing := by rw [hadm]; exact h.increasing
  wellFormed := by rw [hadm]; exact h.wellFormed
  taken_le := by rw [hadm]; exact h.taken_le
  journal := by rw [hadm, hjournal]; exact h.journal
  applied_le := h.applied_le
  stored := by rw [hadm, hbackend]; exact h.stored
  pending := by
    intro p w hw
    rw [hprocs] at hw
    rw [hadm]
    exact h.pending p w hw
  patches := by
    intro p w hw hmode
    simp only [hprocs] at hw ⊢
    exact h.patches p w hw hmode
  frontier := by
    simp only [hprocs]
    exact h.frontier

theorem Layout.push (hadm : s'.admitted = s.admitted ++ more)
    (hops : opsOf s'.journal.entries = opsOf s.journal.entries ++ more)
    (hbackend : s'.backend = s.backend) (hprocs : s'.procs = s.procs)
    (hinc : Increasing SaveItem.version start (savesOf t (s.admitted ++ more)))
    (hwf : ∀ x ∈ more, x.target = t → WellFormed x) : Layout decode start t s' j k seg := by
  have hsaves : savesOf t s'.admitted = savesOf t s.admitted ++ savesOf t more := by
    rw [hadm]
    exact filter_append _ _
  have hle := h.taken_le
  have hkj := h.applied_le
  refine ⟨?_, ?_, ?_, ?_, hkj, ?_, ?_, ?_, ?_⟩
  · rwa [hadm]
  · rw [hsaves, forall_mem_append]
    refine ⟨h.wellFormed, fun x hnew => ?_⟩
    obtain ⟨hmem, htarget⟩ := mem_filter.mp hnew
    exact hwf x hmem (by simpa using htarget)
  · rw [hsaves, length_append]
    omega
  · rw [hsaves, drop_append_of_le_length hle, ← h.journal, hops]
    exact filter_append _ _
  · rw [hsaves, hbackend, take_append_of_le_length (le_trans hkj hle)]
    exact h.stored
  · intro p w hw
    rw [hprocs] at hw
    obtain ⟨hrj, hwrites⟩ := h.pending p w hw
    rw [hsaves]
    exact ⟨hrj, hwrites.append (le_trans hrj hle) _⟩
  · rw [hprocs]
    exact h.patches
  · rw [hprocs]
    exact h.frontier

theorem Layout.commit (hw : pendingSave t (s.procs p) = some w) (htarget : w.target = t)
    (hadm : s'.admitted = s.admitted) (hjournal : s'.journal = s.journal)
    (hbackend : s'.backend t = saveOne decode s.backend w.toOp t)
    (hprocs : s'.procs = update s.procs p pc) (hpc : pendingSave t pc = none) :
    Layout decode start t s' j (max k (seg p).2) seg := by
  obtain ⟨hrj, hwrites⟩ := h.pending p w hw
  have hlr := hwrites.lt
  have hle := h.taken_le
  have hkj := h.applied_le
  have other : ∀ {q : Pid} {x : SaveItem V}, pendingSave t (s'.procs q) = some x →
      q ≠ p ∧ pendingSave t (s.procs q) = some x := by
    intro q x hx
    rw [hprocs] at hx
    rcases eq_or_ne q p with rfl | hne
    · rw [update_self, hpc] at hx
      simp at hx
    · rw [update_of_ne hne] at hx
      exact ⟨hne, hx⟩
  refine ⟨hadm ▸ h.increasing, hadm ▸ h.wellFormed, hadm ▸ hle, ?_, ?_, ?_, ?_, ?_, ?_⟩
  · rw [hadm, hjournal]
    exact h.journal
  · omega
  · subst htarget
    rw [hadm, hbackend]
    exact hwrites.commit h.increasing (by omega) h.stored fun hmode => (h.patches p w hw hmode).1
  · intro q x hx
    rw [hadm]
    exact h.pending q x (other hx).2
  · intro q x hx hmode
    obtain ⟨hne, hold⟩ := other hx
    obtain ⟨-, hdisj⟩ := h.patches q x hold hmode
    refine ⟨.inr ?_, ?_⟩
    · -- the patch at `q` was taken before the save that is written now
      have hbefore := hdisj p hne.symm (by rw [hw]; simp)
      omega
    · intro q' hq' hpend
      obtain ⟨y, hy⟩ := Option.ne_none_iff_exists'.mp hpend
      exact hdisj q' hq' (by rw [(other hy).2]; simp)
  · rcases h.frontier with rfl | ⟨q, hq, hqj⟩
    · exact .inl (by omega)
    rcases eq_or_ne q p with rfl | hne
    · exact .inl (by omega)
    · refine .inr ⟨q, ?_, hqj⟩
      rwa [hprocs, update_of_ne hne]

theorem Layout.take {batch} (hfree : pendingSave t (s.procs p) = none)
    (hadm : s'.admitted = s.admitted)
    (hdrop : (savesOf t s.admitted).drop j = batch ++ savesOf t (opsOf s'.journal.entries))
    (hbackend : s'.backend = s.backend) (hprocs : s'.procs = update s.procs p pc)
    (hpc : pendingSave t pc = some w)
    (hwrites : Writes decode start (savesOf t s.admitted) j (j + batch.length) w)
    (hpatch : w.mode = .patch → ∀ q, pendingSave t (s.procs q) = none) :
    Layout decode start t s' (j + batch.length) k
      (update seg p (j, j + batch.length)) := by
  have hle := h.taken_le
  have hkj := h.applied_le
  have hlen : (savesOf t s.admitted).length - j =
      batch.length + (savesOf t (opsOf s'.journal.entries)).length := by
    rw [← length_drop, hdrop, length_append]
  have hseg : ∀ {q : Pid}, q ≠ p → update seg p (j, j + batch.length) q = seg q :=
    fun hne => update_of_ne hne _ _
  have other : ∀ {q : Pid}, q ≠ p → s'.procs q = s.procs q := by
    intro q hne
    rw [hprocs, update_of_ne hne]
  have hself : s'.procs p = pc := by rw [hprocs, update_self]
  refine ⟨hadm ▸ h.increasing, hadm ▸ h.wellFormed, ?_, ?_, by omega, ?_, ?_, ?_, ?_⟩
  · rw [hadm]
    have := hwrites.lt
    omega
  · rw [hadm, ← drop_drop, hdrop, drop_left]
  · rw [hadm, hbackend]
    exact h.stored
  · intro q x hx
    rw [hadm]
    rcases eq_or_ne q p with rfl | hne
    · rw [hself, hpc, Option.some.injEq] at hx
      subst hx
      rw [update_self]
      exact ⟨le_refl _, hwrites⟩
    rw [other hne] at hx
    rw [hseg hne]
    obtain ⟨hrj, hq⟩ := h.pending q x hx
    exact ⟨by omega, hq⟩
  · intro q x hx hmode
    rcases eq_or_ne q p with rfl | hne
    · rw [hself, hpc, Option.some.injEq] at hx
      subst hx
      have hnone := hpatch hmode
      rw [update_self]
      refine ⟨.inl ?_, ?_⟩
      · -- nothing is pending, so everything taken is already applied
        rcases h.frontier with hk | ⟨q', hq', -⟩
        · exact hk
        · exact absurd (hnone q') hq'
      · intro q' hq' hpend
        rw [other hq'] at hpend
        exact absurd (hnone q') hpend
    · rw [other hne] at hx
      rw [hseg hne]
      obtain ⟨hkq, hdisj⟩ := h.patches q x hx hmode
      refine ⟨hkq, ?_⟩
      intro q' hq' hpend
      rcases eq_or_ne q' p with rfl | hne'
      · rw [update_self]
        exact (h.pending q x hx).1
      · rw [other hne'] at hpend
        rw [hseg hne']
        exact hdisj q' hq' hpend
  · refine .inr ⟨p, ?_, by rw [update_self]⟩
    rw [hself, hpc]
    simp

end LayoutSteps

end CubeCore.FieldLayout
