import CubeCore.MPSCQueue

namespace CubeCore.QueueTickets

open MPSCQueue Function BitVec Nat

variable {T : Type} {g : Nat} {q q' : Queue T}

def at_ (q : Queue T) (i : Nat) : Slot T := q.slot (BitVec.ofNat 64 i)

/-- The sequence number of a place that is in the ring. -/
def ticket (q : Queue T) (i : Nat) : Nat := if q.ready i then i + 1 else i

/-- The place is not released, and there is a slot for it. -/
def InRing (q : Queue T) (i : Nat) : Prop :=
  q.popped.length ≤ i ∧ i < q.popped.length + q.cap

structure Ok (q : Queue T) : Prop where
  width : ∃ k, 4 ≤ k ∧ k ≤ 62 ∧ q.mask.toNat = 2 ^ k - 1
  head : q.head = BitVec.ofNat 64 q.pushed.length
  tail : q.tail = BitVec.ofNat 64 q.taken
  popped_le : q.popped.length ≤ q.taken
  taken_le : q.taken ≤ q.pushed.length
  room : q.pushed.length ≤ q.popped.length + q.cap
  ready_lt : ∀ i, q.ready i = true → i < q.pushed.length
  ready_taken : ∀ i < q.taken, q.ready i = true
  seq : ∀ i, InRing q i → (at_ q i).seq = BitVec.ofNat 64 (ticket q i)
  val : ∀ i p, q.taken ≤ i → q.ready i = true → q.pushed[i]? = some p →
    (at_ q i).val = .stored p.2
  popped : q.popped = (q.pushed.take q.popped.length).map fun p => .stored p.2

variable {i : Nat}

section Slots

theorem Ok.cap_eq (hok : Ok q) : ∃ k, 4 ≤ k ∧ k ≤ 62 ∧ q.cap = 2 ^ k := by
  obtain ⟨k, hlow, hhigh, hmask⟩ := hok.width
  refine ⟨k, hlow, hhigh, ?_⟩
  have hpos : 0 < 2 ^ k := Nat.two_pow_pos k
  rw [Queue.cap]
  omega

theorem Ok.ready_eq_false (hok : Ok q) (hi : q.pushed.length ≤ i) : q.ready i = false :=
  Bool.eq_false_iff.mpr fun hready => Nat.not_lt.mpr hi (hok.ready_lt i hready)

theorem Ok.cap_bounds (hok : Ok q) : 16 ≤ q.cap ∧ q.cap ≤ 2 ^ 62 := by
  obtain ⟨k, hlow, hhigh, hcap⟩ := hok.cap_eq
  rw [hcap]
  constructor
  · show 2 ^ 4 ≤ 2 ^ k
    exact Nat.pow_le_pow_right (by omega) hlow
  · exact Nat.pow_le_pow_right (by omega) hhigh

theorem index_of_width (hwidth : ∃ k, 4 ≤ k ∧ k ≤ 62 ∧ q.mask.toNat = 2 ^ k - 1) (i : Nat) :
    (BitVec.ofNat 64 i &&& q.mask).toNat = i % q.cap := by
  obtain ⟨k, -, hhigh, hmask⟩ := hwidth
  have hcap : 2 ^ k = q.cap := by
    have hpos : 0 < 2 ^ k := Nat.two_pow_pos k
    rw [Queue.cap, hmask]
    omega
  rw [toNat_and, hmask, and_two_pow_sub_one_eq_mod, toNat_ofNat,
    mod_mod_of_dvd _ (pow_dvd_pow 2 (by omega)), hcap]

theorem Ok.index (hok : Ok q) (i : Nat) : (BitVec.ofNat 64 i &&& q.mask).toNat = i % q.cap :=
  index_of_width hok.width i

variable {i j : Nat}

theorem InRing.mod_ne (hi : InRing q i) (hj : InRing q j) (hne : i ≠ j) :
    i % q.cap ≠ j % q.cap := by
  intro hmod
  obtain ⟨hi, hi'⟩ := hi
  obtain ⟨hj, hj'⟩ := hj
  apply hne
  rcases le_total i j with hle | hle
  · have hzero := sub_mod_eq_zero_of_mod_eq hmod.symm
    rw [mod_eq_of_lt (by omega)] at hzero
    omega
  · have hzero := sub_mod_eq_zero_of_mod_eq hmod
    rw [mod_eq_of_lt (by omega)] at hzero
    omega

theorem Ok.at_eq (hok : Ok q) (hmod : i % q.cap = j % q.cap) : at_ q j = at_ q i := by
  show q.buf _ = q.buf _
  rw [hok.index, hok.index, hmod]

theorem at_setVal_self (q : Queue T) (i : Nat) (c : Cell T) :
    at_ (q.setVal (BitVec.ofNat 64 i) c) i = { at_ q i with val := c } :=
  update_self ..

theorem at_setSeq_self (q : Queue T) (i : Nat) (seq : BitVec 64) :
    at_ (q.setSeq (BitVec.ofNat 64 i) seq) i = { at_ q i with seq } :=
  update_self ..

theorem Ok.index_ne (hok : Ok q) (hi : InRing q i) (hj : InRing q j) (hne : i ≠ j) :
    (BitVec.ofNat 64 i &&& q.mask).toNat ≠ (BitVec.ofNat 64 j &&& q.mask).toNat := by
  rw [hok.index, hok.index]
  exact hi.mod_ne hj hne

theorem Ok.at_setVal (hok : Ok q) (hi : InRing q i) (hj : InRing q j) (hne : i ≠ j) (c : Cell T) :
    at_ (q.setVal (BitVec.ofNat 64 j) c) i = at_ q i :=
  update_of_ne (hok.index_ne hi hj hne) ..

theorem Ok.at_setSeq (hok : Ok q) (hi : InRing q i) (hj : InRing q j) (hne : i ≠ j)
    (seq : BitVec 64) : at_ (q.setSeq (BitVec.ofNat 64 j) seq) i = at_ q i :=
  update_of_ne (hok.index_ne hi hj hne) ..

theorem Ok.inRing (hok : Ok q) (hi : q.popped.length ≤ i) (hlt : i < q.pushed.length) :
    InRing q i :=
  ⟨hi, lt_of_lt_of_le hlt hok.room⟩

end Slots

/-- Goroutine `g` has place `pos` for `val` and has not finished. -/
structure Owns (g : Nat) (q : Queue T) (val : T) (pos : Nat) : Prop where
  place : q.pushed[pos]? = some (g, val)
  ready : q.ready pos = false

variable {val : T} {pos : Nat}

theorem Owns.lt (h : Owns g q val pos) : pos < q.pushed.length :=
  (List.getElem?_eq_some_iff.mp h.place).1

theorem Owns.taken_le (h : Owns g q val pos) (hok : Ok q) : q.taken ≤ pos := by
  apply Nat.le_of_not_lt
  intro hlt
  have hready := hok.ready_taken pos hlt
  rw [h.ready] at hready
  cases hready

theorem Owns.inRing (h : Owns g q val pos) (hok : Ok q) : InRing q pos :=
  hok.inRing (hok.popped_le.trans (h.taken_le hok)) h.lt

def PushKnows (g : Nat) (q : Queue T) : PushPC T → Prop
  | .loadHead _ => True
  | .loadSeq _ head won => head = BitVec.ofNat 64 won ∧ won ≤ q.pushed.length
  | .swap _ head won =>
    head = BitVec.ofNat 64 won ∧ won ≤ q.pushed.length ∧ won < q.popped.length + q.cap
  | .write val head pos | .written val head pos => head = BitVec.ofNat 64 pos ∧ Owns g q val pos
  | .storeSeq val head pos =>
    head = BitVec.ofNat 64 pos ∧ Owns g q val pos ∧ (at_ q pos).val = .stored val

/-- A `Push` is not overtaken until its `head` or its sequence number comes round. -/
def Timely (q : Queue T) : PushPC T → Prop
  | .loadSeq _ _ won => q.pushed.length + q.cap ≤ won + 2 ^ 63
  | .swap _ _ won => q.pushed.length < won + 2 ^ 64
  | _ => True

/-- The consumer has taken the first place of the ring. -/
structure Taken (q : Queue T) (tail : BitVec 64) (p : Nat × T) : Prop where
  taken : q.taken = q.popped.length + 1
  tail : tail = BitVec.ofNat 64 q.popped.length
  place : q.pushed[q.popped.length]? = some p

def PopKnows (q : Queue T) : PopPC T → Prop
  | .loadTail => q.taken = q.popped.length
  | .loadSeq tail => q.taken = q.popped.length ∧ tail = BitVec.ofNat 64 q.popped.length
  | .storeTail tail =>
    q.taken = q.popped.length ∧ tail = BitVec.ofNat 64 q.popped.length ∧
      q.ready q.popped.length = true
  | .read tail => ∃ p, Taken q tail p ∧ (at_ q q.popped.length).val = .stored p.2
  | .clear tail val | .storeSeq tail val => ∃ p, Taken q tail p ∧ val = .stored p.2

def Full (q : Queue T) : Prop :=
  ∀ j < q.cap, ∃ i, q.popped.length ≤ i ∧ i < q.pushed.length ∧ i % q.cap = j

theorem full_of_length (hpos : 0 < q.cap) (h : q.pushed.length = q.popped.length + q.cap) :
    Full q := by
  intro j hj
  -- the place of slot `j` among the last `cap` places
  refine ⟨q.popped.length + (j + (q.cap - q.popped.length % q.cap)) % q.cap, ?_, ?_, ?_⟩
  · omega
  · have := mod_lt (j + (q.cap - q.popped.length % q.cap)) hpos
    omega
  · have hmod := mod_lt q.popped.length hpos
    rw [add_mod_mod, ← mod_add_mod,
      show q.popped.length % q.cap + (j + (q.cap - q.popped.length % q.cap)) = j + q.cap by omega,
      add_mod_right, mod_eq_of_lt hj]

section Sequence

theorem toInt_sub_ofNat {b : Nat} (hlow : b ≤ a + 2 ^ 63) (hhigh : a < b + 2 ^ 63) :
    (BitVec.ofNat 64 a - BitVec.ofNat 64 b).toInt = (a : Int) - b := by
  rw [toInt_eq_toNat_cond, toNat_sub, toNat_ofNat, toNat_ofNat]
  split <;> omega

theorem ofNat_add_one (i : Nat) : BitVec.ofNat 64 i + 1 = BitVec.ofNat 64 (i + 1) := by
  apply eq_of_toNat_eq
  simp

variable (hok : Ok q)

include hok

theorem ticket_le (hi : InRing q i) :
    i ≤ ticket q i ∧ ticket q i ≤ i + 1 ∧ ticket q i < q.pushed.length + q.cap := by
  have hcap := hok.cap_bounds
  have hpopped := hok.popped_le
  have htaken := hok.taken_le
  have hlt := hi.2
  unfold ticket
  split_ifs with hready
  · have := hok.ready_lt i hready
    omega
  · omega

theorem Ok.ready_of_diff
    (hdiff : ((at_ q q.popped.length).seq - (BitVec.ofNat 64 q.popped.length + 1)).toInt = 0) :
    q.ready q.popped.length = true := by
  have hcap := hok.cap_bounds
  have hring : InRing q q.popped.length := ⟨le_rfl, by omega⟩
  have hticket := ticket_le hok hring
  rw [hok.seq _ hring, ofNat_add_one, toInt_sub_ofNat (by omega) (by omega)] at hdiff
  by_contra hready
  simp only [ticket, hready, if_false] at hdiff
  omega

theorem Ok.diff_of_ready (hready : q.ready q.popped.length = true) :
    ((at_ q q.popped.length).seq - (BitVec.ofNat 64 q.popped.length + 1)).toInt = 0 := by
  have hcap := hok.cap_bounds
  have hring : InRing q q.popped.length := ⟨le_rfl, by omega⟩
  rw [hok.seq _ hring, ofNat_add_one, toInt_sub_ofNat]
  · simp [ticket, hready]
  · simp only [ticket, hready, if_true]
    omega
  · simp only [ticket, hready, if_true]
    omega

variable {won : Nat} (hwon : won ≤ q.pushed.length)

include hwon

theorem Ok.seq_slot :
    ∃ i, InRing q i ∧ (q.slot (BitVec.ofNat 64 won)).seq = BitVec.ofNat 64 (ticket q i) ∧
      (won ≤ i ∧ won < q.popped.length + q.cap ∨
        won = i + q.cap ∧ q.pushed.length = q.popped.length + q.cap) := by
  have hcap := hok.cap_bounds
  have hroom := hok.room
  have hslot : ∀ i, InRing q i → i % q.cap = won % q.cap →
      (q.slot (BitVec.ofNat 64 won)).seq = BitVec.ofNat 64 (ticket q i) := by
    intro i hi hmod
    rw [← hok.seq i hi, ← hok.at_eq hmod]
    rfl
  rcases lt_or_ge won (q.popped.length + q.cap) with hlt | hge
  · rcases lt_or_ge won q.popped.length with hpopped | hin
    · -- the first place of the ring that has the same slot
      have hsplit := div_add_mod (q.popped.length - won + (q.cap - 1)) q.cap
      have hmod := mod_lt (q.popped.length - won + (q.cap - 1)) (show 0 < q.cap by omega)
      generalize (q.popped.length - won + (q.cap - 1)) / q.cap = turns at hsplit
      have hring : InRing q (won + q.cap * turns) := ⟨by omega, by omega⟩
      exact ⟨_, hring, hslot _ hring (add_mul_mod_self_left ..), .inl ⟨by omega, hlt⟩⟩
    · exact ⟨won, ⟨hin, hlt⟩, hslot won ⟨hin, hlt⟩ rfl, .inl ⟨le_rfl, hlt⟩⟩
  · obtain rfl : won = q.popped.length + q.cap := by omega
    have hring : InRing q q.popped.length := ⟨le_rfl, by omega⟩
    exact ⟨_, hring, hslot _ hring (add_mod_right ..).symm, .inr ⟨rfl, by omega⟩⟩

theorem Ok.room_of_diff
    (hdiff : ((q.slot (BitVec.ofNat 64 won)).seq - BitVec.ofNat 64 won).toInt = 0) :
    won < q.popped.length + q.cap := by
  have hcap := hok.cap_bounds
  obtain ⟨i, hring, hseq, ⟨-, hlt⟩ | ⟨rfl, hfull⟩⟩ := hok.seq_slot hwon
  · exact hlt
  · have hticket := ticket_le hok hring
    rw [hseq, toInt_sub_ofNat (by omega) (by omega)] at hdiff
    omega

theorem Ok.full_of_diff (htimely : q.pushed.length + q.cap ≤ won + 2 ^ 63)
    (hdiff : ((q.slot (BitVec.ofNat 64 won)).seq - BitVec.ofNat 64 won).toInt < 0) : Full q := by
  have hcap := hok.cap_bounds
  obtain ⟨i, hring, hseq, ⟨hle, -⟩ | ⟨rfl, hfull⟩⟩ := hok.seq_slot hwon
  · have hticket := ticket_le hok hring
    rw [hseq, toInt_sub_ofNat (by omega) (by omega)] at hdiff
    omega
  · exact full_of_length (by omega) hfull

theorem Ok.won_of_head (htimely : q.pushed.length < won + 2 ^ 64)
    (hhead : q.head = BitVec.ofNat 64 won) : won = q.pushed.length := by
  have hnat := congrArg BitVec.toNat (hok.head.symm.trans hhead)
  simp only [toNat_ofNat] at hnat
  omega

end Sequence

end CubeCore.QueueTickets
