import CubeCore.TransitionSystem
import Mathlib.Algebra.Group.Nat.Defs

namespace CubeCore.TouchWord

open BitVec

def touchCntMask : BitVec 32 := 0x3FFFFFFF#32
def removedBit : BitVec 32 := 1#32 <<< 30
def clearedBit : BitVec 32 := -1#32 <<< 31

structure Word (w : BitVec 32) (count : Nat) (removed cleared : Bool) : Prop where
  value : w.toNat = count + removed.toNat * 2 ^ 30 + cleared.toNat * 2 ^ 31
  lt : count < 2 ^ 30

variable {w : BitVec 32} {count : Nat} {removed cleared : Bool}

theorem removedBit_eq : removedBit = twoPow 32 30 := by decide

theorem clearedBit_eq : clearedBit = twoPow 32 31 := by decide

theorem Word.zero : Word 0 0 false false := ⟨rfl, by decide⟩

theorem Word.bits (h : Word w count removed cleared) :
    w.getLsbD 30 = removed ∧ w.getLsbD 31 = cleared := by
  have hlt := h.lt
  simp only [getLsbD, Nat.testBit_eq_decide_div_mod_eq, h.value]
  cases removed <;> cases cleared <;> simp <;> omega

variable {i : Nat}

theorem twoPow_ne_zero (hi : i < 32) : twoPow 32 i ≠ 0 := by
  intro heq
  have hbit := congrArg (fun x => x.getLsbD i) heq
  simp [hi] at hbit

theorem and_twoPow_eq_zero (hi : i < 32) :
    w &&& twoPow 32 i = 0 ↔ w.getLsbD i = false := by
  rw [and_twoPow]
  cases w.getLsbD i with
  | false => simp
  | true => simpa using twoPow_ne_zero hi

section

variable (h : Word w count removed cleared)
include h

theorem Word.and_removedBit : w &&& removedBit = 0 ↔ removed = false := by
  rw [removedBit_eq, and_twoPow_eq_zero (by decide), h.bits.1]

theorem Word.and_clearedBit : w &&& clearedBit = 0 ↔ cleared = false := by
  rw [clearedBit_eq, and_twoPow_eq_zero (by decide), h.bits.2]

theorem Word.and_flags :
    w &&& (removedBit ||| clearedBit) = 0 ↔ removed = false ∧ cleared = false := by
  rw [and_or_distrib_left, ← h.and_removedBit, ← h.and_clearedBit]
  exact or_eq_zero_iff

theorem Word.and_mask : w &&& touchCntMask = 0 ↔ count = 0 := by
  have hlt := h.lt
  have hmask : touchCntMask.toNat = 2 ^ 30 - 1 := by decide
  rw [← toNat_inj, toNat_and, hmask, Nat.and_two_pow_sub_one_eq_mod, h.value]
  cases removed <;> cases cleared <;> simp <;> omega

theorem Word.add_one (hlt : count + 1 < 2 ^ 30) : Word (w + 1) (count + 1) removed cleared := by
  have hvalue := h.value
  refine ⟨?_, hlt⟩
  rw [toNat_add, show (1 : BitVec 32).toNat = 1 from rfl]
  omega

end

theorem Word.sub_one (h : Word w (count + 1) removed cleared) :
    Word (w - 1) count removed cleared := by
  have hvalue := h.value
  have hlt := h.lt
  refine ⟨?_, by omega⟩
  have hle : (1 : BitVec 32) ≤ w := by
    show 1 ≤ w.toNat
    omega
  rw [toNat_sub_of_le hle, show (1 : BitVec 32).toNat = 1 from rfl]
  omega

theorem or_twoPow_of_bit (h : w.getLsbD i = true) : w ||| twoPow 32 i = w := by
  ext j hj
  rcases eq_or_ne j i with rfl | heq
  · simp [h]
  · simp [heq]

theorem toNat_or_twoPow (hi : i < 32) (h : w.getLsbD i = false) :
    (w ||| twoPow 32 i).toNat = w.toNat + 2 ^ i := by
  have hzero := (and_twoPow_eq_zero hi).mpr h
  rw [← add_eq_or_of_and_eq_zero _ _ hzero, toNat_add_of_and_eq_zero hzero, toNat_twoPow_of_lt hi]

theorem Word.or_removedBit (h : Word w count removed cleared) :
    Word (w ||| removedBit) count true cleared := by
  rw [removedBit_eq]
  cases removed with
  | true => rwa [or_twoPow_of_bit h.bits.1]
  | false =>
    refine ⟨?_, h.lt⟩
    rw [toNat_or_twoPow (by decide) h.bits.1, h.value, Bool.toNat_false, Bool.toNat_true]
    omega

theorem Word.or_clearedBit (h : Word w count removed cleared) :
    Word (w ||| clearedBit) count removed true := by
  rw [clearedBit_eq]
  cases cleared with
  | true => rwa [or_twoPow_of_bit h.bits.2]
  | false =>
    refine ⟨?_, h.lt⟩
    rw [toNat_or_twoPow (by decide) h.bits.2, h.value, Bool.toNat_false, Bool.toNat_true]
    omega

theorem Word.or_removedBit_eq (h : Word w count true cleared) : w ||| removedBit = w := by
  exact or_twoPow_of_bit h.bits.1

end CubeCore.TouchWord
