import CubeCore.TransitionSystem

namespace CubeCore.PersistDirty

open TransitionSystem

structure DirtyTracker where
  persistDirty : UInt64
  syncDirty : UInt64
  version : UInt64
  syncVersion : UInt64
deriving DecidableEq

structure DirtySnapshot where
  persistDirty : UInt64
  syncDirty : UInt64
  version : UInt64
  syncVersion : UInt64
deriving DecidableEq

variable (d : DirtyTracker) (mask : UInt64)

def markPersist : DirtyTracker :=
  if mask ≠ 0 then { d with persistDirty := d.persistDirty ||| mask } else d

def takePersistDirty : UInt64 × DirtyTracker :=
  (d.persistDirty, { d with persistDirty := 0 })

def rollbackPersist : DirtyTracker :=
  markPersist d mask

def snapshot : DirtySnapshot :=
  ⟨d.persistDirty, d.syncDirty, d.version, d.syncVersion⟩

def restore (_ : DirtyTracker) (snapshot : DirtySnapshot) : DirtyTracker :=
  ⟨snapshot.persistDirty, snapshot.syncDirty, snapshot.version, snapshot.syncVersion⟩

def hasBit (b : Nat) : Bool := mask.toBitVec.getLsbD b

@[simp] theorem hasBit_zero (b : Nat) : hasBit 0 b = false := by
  simp [hasBit]

@[simp] theorem hasBit_or (m m' : UInt64) (b : Nat) :
    hasBit (m ||| m') b = (hasBit m b || hasBit m' b) := by
  simp [hasBit]

theorem hasBit_markPersist (b : Nat) :
    hasBit (markPersist d mask).persistDirty b = (hasBit d.persistDirty b || hasBit mask b) := by
  unfold markPersist
  split_ifs with hzero
  · exact hasBit_or ..
  · rw [not_not.mp hzero, hasBit_zero, Bool.or_false]

/-- `taken` are the masks of running flushes, `saved` the open transaction's snapshot, `rolledBack`
the bits put back since it. -/
structure State where
  tracker : DirtyTracker
  taken : List UInt64
  saved : Option DirtySnapshot
  rolledBack : UInt64
deriving DecidableEq

inductive Label where
  | markPersist (mask : UInt64)
  | takePersistDirty
  | rollbackPersist (mask : UInt64)
  | snapshot
  | restore
  | commit
deriving DecidableEq

def next (s : State) : Label → Option State
  | .markPersist mask => some { s with tracker := markPersist s.tracker mask }
  | .takePersistDirty =>
    let out := takePersistDirty s.tracker
    some { s with
      tracker := out.2
      taken := out.1 :: s.taken
      rolledBack := s.rolledBack &&& ~~~out.1 }
  | .rollbackPersist mask =>
    if mask ∈ s.taken then
      some { s with
        tracker := rollbackPersist s.tracker mask
        rolledBack := if s.saved = none then s.rolledBack else s.rolledBack ||| mask }
    else none
  | .snapshot =>
    if s.saved = none then
      some { s with saved := some (snapshot s.tracker), rolledBack := 0 }
    else none
  | .restore => do
      let saved ← s.saved
      return { s with tracker := restore s.tracker saved, saved := none }
  | .commit => if s.saved = none then none else some { s with saved := none, rolledBack := 0 }

def initial (s : State) : Prop :=
  s.taken = [] ∧ s.saved = none ∧ s.rolledBack = 0

/-- No bit that a failed flush has put back has been lost. -/
def Kept (s : State) : Prop :=
  ∀ b, hasBit s.rolledBack b = true → hasBit s.tracker.persistDirty b = true

/-- Flushes that fail during a transaction put back only bits of its snapshot. -/
def knownBits (s : State) : Label → Prop
  | .rollbackPersist mask =>
    ∀ saved ∈ s.saved, mask ||| saved.persistDirty = saved.persistDirty
  | _ => True

instance (s : State) : DecidablePred (knownBits s)
  | .rollbackPersist _ => inferInstanceAs (Decidable (∀ saved ∈ s.saved, _))
  | .markPersist _ | .takePersistDirty | .snapshot | .restore | .commit => isTrue trivial

structure Inv (s : State) : Prop where
  kept : Kept s
  saved : ∀ saved ∈ s.saved, ∀ b,
    hasBit s.rolledBack b = true → hasBit saved.persistDirty b = true

theorem Inv.next {s s' : State} {l : Label} (h : Inv s) (hknown : knownBits s l)
    (hnext : next s l = some s') : Inv s' := by
  cases l with
  | markPersist =>
    cases hnext
    refine ⟨fun b hb => ?_, h.saved⟩
    rw [hasBit_markPersist, h.kept b hb, Bool.true_or]
  | takePersistDirty =>
    cases hnext
    -- every bit that was put back is taken
    have htaken (b : Nat) : hasBit (s.rolledBack &&& ~~~s.tracker.persistDirty) b = false := by
      have hkept := h.kept b
      simp only [hasBit] at hkept ⊢
      simp only [UInt64.toBitVec_and, UInt64.toBitVec_not, BitVec.getLsbD_and, BitVec.getLsbD_not]
      cases hb : s.rolledBack.toBitVec.getLsbD b with
      | false => rfl
      | true => simp [hkept hb]
    constructor
    · intro b hb
      exact absurd hb (Bool.eq_false_iff.mp (htaken b))
    · intro saved _ b hb
      exact absurd hb (Bool.eq_false_iff.mp (htaken b))
  | rollbackPersist =>
    simp only [PersistDirty.next] at hnext
    split at hnext
    · cases hnext
      constructor
      · intro b hb
        simp only [rollbackPersist, hasBit_markPersist, Bool.or_eq_true]
        split at hb
        · exact .inl (h.kept b hb)
        · rw [hasBit_or, Bool.or_eq_true] at hb
          exact hb.imp_left (h.kept b)
      intro saved hsaved b hb
      have hopen : s.saved ≠ none := Option.ne_none_iff_exists'.mpr ⟨saved, hsaved⟩
      rw [if_neg hopen, hasBit_or, Bool.or_eq_true] at hb
      refine hb.elim (h.saved saved hsaved b) fun hmask => ?_
      rw [← hknown saved hsaved, hasBit_or, hmask, Bool.true_or]
    · cases hnext
  | snapshot =>
    simp only [PersistDirty.next] at hnext
    split_ifs at hnext
    cases hnext
    exact ⟨fun b hb => by simp at hb, fun _ _ b hb => by simp at hb⟩
  | restore =>
    obtain ⟨saved, hsaved, heq⟩ := Option.bind_eq_some_iff.mp hnext
    cases heq
    exact ⟨h.saved saved hsaved, by simp⟩
  | commit =>
    simp only [PersistDirty.next] at hnext
    split_ifs at hnext
    cases hnext
    exact ⟨fun b hb => by simp at hb, by simp⟩

/-- What failed flushes have put back stays dirty, before and after `Restore`. -/
theorem rolledBack_kept {s : State} (h : Reach next initial knownBits s) : Kept s := by
  have hinv : Inv s := by
    refine h.invariant ?_ fun s l s' hinv hknown hnext => hinv.next hknown hnext
    rintro s ⟨-, hsaved, hzero⟩
    exact ⟨fun b hb => by simp [hzero] at hb, by simp [hsaved]⟩
  exact hinv.kept

def clean : State := ⟨⟨0, 0, 0, 0⟩, [], none, 0⟩

theorem initial_clean : initial clean := ⟨rfl, rfl, rfl⟩

theorem rolledBack_kept_marked_again :
    ∃ s, Reach next initial knownBits s ∧ s.saved = none ∧ s.rolledBack = 1 ∧ Kept s := by
  refine exists_reach_imp (P := fun s => s.saved = none ∧ s.rolledBack = 1)
    (exists_of_run initial_clean (fun s l => decide (knownBits s l))
      [.markPersist 1, .takePersistDirty, .markPersist 1, .snapshot, .rollbackPersist 1, .restore]
      (fun _ _ _ => of_decide_eq_true) (by decide +kernel)) ?_
  rintro s hreach ⟨hsaved, hbits⟩
  exact ⟨hsaved, hbits, rolledBack_kept hreach⟩

/-- A flush fails between `Snapshot` and `Restore`, and its bit is not restored. -/
theorem rolledBack_lost :
    ∃ s, Reach next initial anyStep s ∧ s.saved = none ∧ hasBit s.rolledBack 0 = true ∧
      hasBit s.tracker.persistDirty 0 = false :=
  exists_of_anyRun initial_clean
    [.markPersist 1, .takePersistDirty, .snapshot, .rollbackPersist 1, .restore]
    (by decide +kernel)

end CubeCore.PersistDirty
