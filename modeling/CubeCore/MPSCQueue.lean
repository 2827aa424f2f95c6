import CubeCore.Interleaving
import Mathlib.Data.Nat.Bitwise
import Mathlib.Data.Nat.Find

namespace CubeCore.MPSCQueue

open BitVec Nat

/-- The content of `val`: the zero value, a value whose store has not finished, or a
value. -/
inductive Cell (T : Type) where
  | cleared
  | torn
  | stored (val : T)
deriving DecidableEq

structure Slot (T : Type) where
  seq : BitVec 64
  val : Cell T

/-- Ghost data: `pushed` has the winners of the CAS on `head`, goroutine and value, `ready` the
places whose sequence number is stored, `taken` counts the stores to `tail`, `popped` has what `Pop`
returned. -/
structure Queue (T : Type) where
  buf : Nat → Slot T
  mask : BitVec 64
  head : BitVec 64
  tail : BitVec 64
  pushed : List (Nat × T)
  ready : Nat → Bool
  taken : Nat
  popped : List (Cell T)

def nextPow2 (n : BitVec 64) : BitVec 64 :=
  if n.toInt ≤ 0 then 1
  else
    let n := n - 1
    let n := n ||| n.sshiftRight 1
    let n := n ||| n.sshiftRight 2
    let n := n ||| n.sshiftRight 4
    let n := n ||| n.sshiftRight 8
    let n := n ||| n.sshiftRight 16
    let n := n ||| n.sshiftRight 32
    n + 1

def newMPSCQueue (T : Type) (capacity : BitVec 64) : Queue T :=
  let cap2 := nextPow2 capacity
  let cap2 := if cap2.toInt < 16 then 16 else cap2
  { buf := fun i => ⟨BitVec.ofNat 64 i, .cleared⟩
    mask := cap2 - 1
    head := 0
    tail := 0
    pushed := []
    ready := fun _ => false
    taken := 0
    popped := [] }

variable {T : Type}

namespace Queue

variable (q : Queue T)

def cap : Nat := q.mask.toNat + 1

def slot (pos : BitVec 64) : Slot T := q.buf (pos &&& q.mask).toNat

def setVal (pos : BitVec 64) (val : Cell T) : Queue T :=
  { q with buf := Function.update q.buf (pos &&& q.mask).toNat { q.slot pos with val } }

def setSeq (pos seq : BitVec 64) : Queue T :=
  { q with buf := Function.update q.buf (pos &&& q.mask).toNat { q.slot pos with seq } }

end Queue

/-- `won` and `pos` are ghost data: how many had won when `head` was loaded, and the place of this
`Push`. -/
inductive PushPC (T : Type) where
  | loadHead (val : T)
  | loadSeq (val : T) (head : BitVec 64) (won : Nat)
  | swap (val : T) (head : BitVec 64) (won : Nat)
  | write (val : T) (head : BitVec 64) (pos : Nat)
  | written (val : T) (head : BitVec 64) (pos : Nat)
  | storeSeq (val : T) (head : BitVec 64) (pos : Nat)
deriving DecidableEq

def PushPC.val : PushPC T → T
  | .loadHead val | .loadSeq val _ _ | .swap val _ _ => val
  | .write val _ _ | .written val _ _ | .storeSeq val _ _ => val

/-- The place of a `Push` that has won its CAS. -/
def PushPC.place : PushPC T → Option Nat
  | .loadHead _ | .loadSeq _ _ _ | .swap _ _ _ => none
  | .write _ _ pos | .written _ _ pos | .storeSeq _ _ pos => some pos

/-- One step of `Push` by goroutine `g`, to its next place or its result. -/
def pushStep (g : Nat) (q : Queue T) : PushPC T → Queue T × (PushPC T ⊕ Bool)
  | .loadHead val => (q, .inl (.loadSeq val q.head q.pushed.length))
  | .loadSeq val head won =>
    let diff := (q.slot head).seq - head
    if diff.toInt = 0 then (q, .inl (.swap val head won))
    else if diff.toInt < 0 then (q, .inr false)
    else (q, .inl (.loadHead val))
  | .swap val head _ =>
    if q.head = head then
      ({ q with head := head + 1, pushed := q.pushed ++ [(g, val)] },
        .inl (.write val head q.pushed.length))
    else (q, .inl (.loadHead val))
  | .write val head pos => (q.setVal head .torn, .inl (.written val head pos))
  | .written val head pos => (q.setVal head (.stored val), .inl (.storeSeq val head pos))
  | .storeSeq _ head pos =>
    ({ q.setSeq head (head + 1) with ready := Function.update q.ready pos true }, .inr true)

/-- Where the consumer is in `Pop`. -/
inductive PopPC (T : Type) where
  | loadTail
  | loadSeq (tail : BitVec 64)
  | storeTail (tail : BitVec 64)
  | read (tail : BitVec 64)
  | clear (tail : BitVec 64) (val : Cell T)
  | storeSeq (tail : BitVec 64) (val : Cell T)
deriving DecidableEq

/-- One step of `Pop`; the result is `none` for an empty queue. -/
def popStep (q : Queue T) : PopPC T → Queue T × (PopPC T ⊕ Option (Cell T))
  | .loadTail => (q, .inl (.loadSeq q.tail))
  | .loadSeq tail =>
    let diff := (q.slot tail).seq - (tail + 1)
    if diff.toInt = 0 then (q, .inl (.storeTail tail)) else (q, .inr none)
  | .storeTail tail => ({ q with tail := tail + 1, taken := q.taken + 1 }, .inl (.read tail))
  | .read tail => (q, .inl (.clear tail (q.slot tail).val))
  | .clear tail val => (q.setVal tail .cleared, .inl (.storeSeq tail val))
  | .storeSeq tail val =>
    ({ q.setSeq tail (tail + q.mask + 1) with popped := q.popped ++ [val] }, .inr (some val))

section Capacity

/-- Bit `i` of `y` says whether one of the bits `i` to `i + m - 1` of `x` is set. -/
def Smeared (x : BitVec 64) (m : Nat) (y : BitVec 64) : Prop :=
  y.msb = false ∧ ∀ i, y.getLsbD i = true ↔ ∃ d < m, x.getLsbD (i + d) = true

variable {x y : BitVec 64}

theorem Smeared.double {m : Nat} (h : Smeared x m y) (hm : 0 < m) :
    Smeared x (m + m) (y ||| y.sshiftRight m) := by
  obtain ⟨hmsb, hbits⟩ := h
  have hshift : y.sshiftRight m = y >>> m := sshiftRight_eq_of_msb_false hmsb
  rw [hshift]
  refine ⟨?_, fun i => ?_⟩
  · simp [hmsb]
  rw [getLsbD_or, Bool.or_eq_true, getLsbD_ushiftRight, hbits, hbits]
  constructor
  · rintro (⟨d, hd, hx⟩ | ⟨d, hd, hx⟩)
    · exact ⟨d, by omega, hx⟩
    · refine ⟨m + d, by omega, ?_⟩
      rwa [show i + (m + d) = m + i + d by omega]
  rintro ⟨d, hd, hx⟩
  rcases lt_or_ge d m with hlt | hge
  · exact .inl ⟨d, hlt, hx⟩
  · refine .inr ⟨d - m, by omega, ?_⟩
    rwa [show m + i + (d - m) = i + d by omega]

theorem Smeared.mono {i k : Nat} (h : Smeared x 64 y) (hik : i ≤ k) (hk : y.getLsbD k = true) :
    y.getLsbD i = true := by
  obtain ⟨d, -, hx⟩ := (h.2 k).mp hk
  have hlt := lt_of_getLsbD hx
  refine (h.2 i).mpr ⟨k - i + d, by omega, ?_⟩
  rwa [show i + (k - i + d) = k + d by omega]

theorem Smeared.toNat (h : Smeared x 64 y) : ∃ j ≤ 63, y.toNat = 2 ^ j - 1 := by
  have htop : y.getLsbD 63 = false := by
    rw [← h.1, msb_eq_getLsbD_last]
  have hexists : ∃ j, y.getLsbD j = false := ⟨63, htop⟩
  refine ⟨Nat.find hexists, Nat.find_min' hexists htop, ?_⟩
  apply eq_of_testBit_eq
  intro i
  rw [testBit_two_pow_sub_one]
  rcases lt_or_ge i (Nat.find hexists) with hlt | hge
  · rw [decide_eq_true hlt]
    exact (Bool.eq_false_or_eq_true _).resolve_right (Nat.find_min hexists hlt)
  rw [decide_eq_false (not_lt.mpr hge)]
  apply Bool.eq_false_iff.mpr
  intro htrue
  exact Bool.eq_false_iff.mp (Nat.find_spec hexists) (h.mono hge htrue)

theorem nextPow2_toNat (n : BitVec 64) : ∃ j ≤ 63, (nextPow2 n).toNat = 2 ^ j := by
  unfold nextPow2
  split_ifs with hn
  · exact ⟨0, by omega, rfl⟩
  have hmsb : (n - 1).msb = false := by
    rw [msb_eq_false_iff_two_mul_lt]
    have hsmall : 2 * n.toNat < 2 ^ 64 := by
      by_contra hlarge
      have := toInt_neg_iff.mpr (not_lt.mp hlarge)
      omega
    have hpos : n.toNat ≠ 0 := by
      intro hzero
      apply hn
      rw [toInt_eq_toNat_of_lt hsmall]
      omega
    rw [toNat_sub, show (1 : BitVec 64).toNat = 1 from rfl]
    omega
  have hone : Smeared (n - 1) 1 (n - 1) := by
    refine ⟨hmsb, fun i => ?_⟩
    constructor
    · exact fun h => ⟨0, by omega, h⟩
    · rintro ⟨d, hd, hx⟩
      obtain rfl : d = 0 := by omega
      exact hx
  have hall := ((((((hone.double (by omega)).double (by omega)).double (by omega)).double
    (by omega)).double (by omega)).double (by omega))
  obtain ⟨j, hj, hnat⟩ := hall.toNat
  refine ⟨j, hj, ?_⟩
  have hpow : 2 ^ j ≤ 2 ^ 63 := Nat.pow_le_pow_right (by omega) hj
  have hpos : 0 < 2 ^ j := Nat.two_pow_pos j
  rw [toNat_add, hnat, show (1 : BitVec 64).toNat = 1 from rfl]
  omega

theorem newMPSCQueue_mask (T : Type) (capacity : BitVec 64) :
    ∃ k, 4 ≤ k ∧ k ≤ 62 ∧ (newMPSCQueue T capacity).mask.toNat = 2 ^ k - 1 := by
  obtain ⟨j, hj, hpow⟩ := nextPow2_toNat capacity
  simp only [newMPSCQueue]
  split_ifs with hlarge
  · exact ⟨4, by omega, by omega, rfl⟩
  have hsmall : 2 * (nextPow2 capacity).toNat < 2 ^ 64 := by
    by_contra hneg
    have := toInt_neg_iff.mpr (not_lt.mp hneg)
    omega
  rw [toInt_eq_toNat_of_lt hsmall] at hlarge
  have hle : 2 ^ 4 ≤ 2 ^ j := by omega
  have hlt : 2 ^ j < 2 ^ 63 := by omega
  refine ⟨j, (Nat.pow_le_pow_iff_right (by omega)).mp hle, ?_, ?_⟩
  · have := (Nat.pow_lt_pow_iff_right (by omega)).mp hlt
    omega
  · rw [toNat_sub, show (1 : BitVec 64).toNat = 1 from rfl]
    omega

end Capacity

end CubeCore.MPSCQueue
