import CubeCore.Interleaving
import Mathlib.Algebra.Group.Nat.Defs
import Mathlib.Data.List.Nodup

namespace CubeCore.IDGen

open Interleaving TransitionSystem Nat

def idGenOffsetBits : UInt64 := 20
def idGenBlockSize : UInt64 := 1 <<< idGenOffsetBits
def uniqueIDBits : UInt64 := 52
def staticUniqueIDBase : UInt64 := 1 <<< (uniqueIDBits - 1)
def dynamicUniqueIDMask : UInt64 := staticUniqueIDBase - 1
def maxBlockNo : UInt64 := dynamicUniqueIDMask >>> idGenOffsetBits

/-- The two stores of `resetBlock`. -/
def blockStart (blockNo : UInt64) : UInt64 :=
  if blockNo = 0 then 1 else blockNo <<< idGenOffsetBits

def blockEnd (blockNo : UInt64) : UInt64 := (blockNo <<< idGenOffsetBits) + idGenBlockSize

/-- `rotating` has the goroutine that has set it. Ghost data: `block` is the block stored last,
`half` until its end is stored; `given` are the blocks, `lastBlock` the last that `acquireBlock`
returned, `ids` what `Generate` returned. -/
structure Gen where
  next : UInt64
  end_ : UInt64
  rotating : Option Nat
  acquireBlock : Bool
  block : UInt64
  half : Bool
  given : List UInt64
  lastBlock : UInt64
  ids : List UInt64

/-- Where a goroutine is in `Generate` and `rotateBlock`. -/
inductive PC where
  | idle
  | loop
  | loadedNext (next : UInt64)
  | swap (next : UInt64)
  | rotate
  | acquire
  | storeStart (blockNo : UInt64)
  | storeEnd (blockNo : UInt64)
  | release (failed : Bool)
  | wait
deriving DecidableEq

/-- A step; `acquired` is what `acquireBlock` returns, none for an error. -/
inductive Act where
  | run
  | acquired (blockNo : Option UInt64)

def step (g : Nat) (s : Gen) : PC → Act → Option (Gen × PC)
  | .idle, .run => some (s, .loop)
  | .loop, .run => some (s, .loadedNext s.next)
  | .loadedNext next, .run => some (s, if next < s.end_ then .swap next else .rotate)
  | .swap next, .run =>
    if s.next = next then some ({ s with next := next + 1, ids := next :: s.ids }, .idle)
    else some (s, .loop)
  | .rotate, .run =>
    if !s.acquireBlock then some (s, .idle)
    else if s.rotating = none then some ({ s with rotating := some g }, .acquire)
    else some (s, .wait)
  | .acquire, .acquired none => some (s, .release true)
  | .acquire, .acquired (some blockNo) =>
    if maxBlockNo < blockNo then some ({ s with lastBlock := blockNo }, .release true)
    else
      some ({ s with lastBlock := blockNo, given := blockNo :: s.given }, .storeStart blockNo)
  | .storeStart blockNo, .run =>
    some ({ s with next := blockStart blockNo, block := blockNo, half := true },
      .storeEnd blockNo)
  | .storeEnd blockNo, .run =>
    some ({ s with end_ := blockEnd blockNo, half := false }, .release false)
  | .release failed, .run => some ({ s with rotating := none }, if failed then .idle else .loop)
  | .wait, .run => some (s, if s.rotating = none then .loop else .wait)
  | _, _ => none

def next : Threads Gen PC → Nat × Act → Option (Threads Gen PC) := Interleaving.next step

def newIDGen (initialBlock : UInt64) (acquireBlock : Bool) : Option (Threads Gen PC) :=
  if maxBlockNo < initialBlock then none
  else
    some
      { shared :=
          { next := blockStart initialBlock
            end_ := blockEnd initialBlock
            rotating := none
            acquireBlock := acquireBlock
            block := initialBlock
            half := false
            given := [initialBlock]
            lastBlock := initialBlock
            ids := [] }
        pc := fun _ => .idle }

/-- `acquireBlock` returns strictly increasing block numbers above the initial one. -/
def growing (s : Threads Gen PC) : Nat × Act → Prop
  | (_, .acquired (some blockNo)) => s.shared.lastBlock < blockNo
  | _ => True

def inBlock (blockNo id : UInt64) : Prop :=
  blockNo.toNat * 2 ^ 20 ≤ id.toNat ∧ id.toNat < (blockNo.toNat + 1) * 2 ^ 20

section Blocks

variable {b b' : UInt64}

theorem maxBlockNo_toNat : maxBlockNo.toNat = 2 ^ 31 - 1 := by decide

theorem toNat_le_of_not_lt (h : ¬ maxBlockNo < b) : b.toNat < 2 ^ 31 := by
  have hle : b.toNat ≤ maxBlockNo.toNat := UInt64.not_lt.mp h
  rw [maxBlockNo_toNat] at hle
  omega

theorem toNat_shift (h : b.toNat < 2 ^ 31) : (b <<< idGenOffsetBits).toNat = b.toNat * 2 ^ 20 := by
  rw [UInt64.toNat_shiftLeft, show idGenOffsetBits.toNat % 64 = 20 from rfl, shiftLeft_eq,
    mod_eq_of_lt (by omega)]

theorem toNat_blockEnd (h : b.toNat < 2 ^ 31) : (blockEnd b).toNat = (b.toNat + 1) * 2 ^ 20 := by
  rw [blockEnd, UInt64.toNat_add, toNat_shift h, show idGenBlockSize.toNat = 2 ^ 20 from rfl]
  omega

theorem toNat_blockStart (h : b.toNat < 2 ^ 31) :
    b.toNat * 2 ^ 20 ≤ (blockStart b).toNat ∧ 1 ≤ (blockStart b).toNat ∧
      (blockStart b).toNat < (b.toNat + 1) * 2 ^ 20 := by
  unfold blockStart
  split_ifs with hne
  · subst hne
    decide
  · have hpos : b.toNat ≠ 0 := fun hzero => hne (UInt64.toNat_inj.mp hzero)
    rw [toNat_shift h]
    omega

end Blocks

structure Issued (s : Gen) : Prop where
  fits : s.block.toNat < 2 ^ 31
  given : s.block ∈ s.given
  last : s.block ≤ s.lastBlock
  low : (blockStart s.block).toNat ≤ s.next.toNat
  high : s.next.toNat ≤ (s.block.toNat + 1) * 2 ^ 20
  whole : s.half = false → s.end_.toNat = (s.block.toNat + 1) * 2 ^ 20
  half : s.half = true → s.end_.toNat ≤ s.block.toNat * 2 ^ 20
  free : s.rotating = none → s.half = false
  below : ∀ id ∈ s.ids, id.toNat < s.next.toNat
  distinct : s.ids.Nodup
  placed : ∀ id ∈ s.ids, 1 ≤ id.toNat ∧ ∃ b ∈ s.given, b.toNat < 2 ^ 31 ∧ inBlock b id

def Knows (g : Nat) (s : Gen) : PC → Prop
  | .loadedNext next => next.toNat ≤ s.next.toNat
  | .swap next => next.toNat ≤ s.next.toNat ∧ (s.next = next → next.toNat < s.end_.toNat)
  | .acquire => s.rotating = some g ∧ s.half = false
  | .storeStart blockNo =>
    s.rotating = some g ∧ s.half = false ∧ blockNo.toNat < 2 ^ 31 ∧ blockNo ∈ s.given ∧
      s.block < blockNo ∧ blockNo ≤ s.lastBlock
  | .storeEnd blockNo => s.rotating = some g ∧ s.half = true ∧ s.block = blockNo
  | .release _ => s.rotating = some g ∧ s.half = false
  | _ => True

section Steps

variable {g : Nat} {s s' : Gen} {pc pc' : PC} {a : Act}

inductive Change (g : Nat) (s : Gen) : Gen → Prop where
  | same : Change g s s
  | issued (hlt : s.next.toNat < s.end_.toNat) :
      Change g s { s with next := s.next + 1, ids := s.next :: s.ids }
  | locked (hfree : s.rotating = none) : Change g s { s with rotating := some g }
  | refused (hheld : s.rotating = some g) (hgrow : s.lastBlock < blockNo) :
      Change g s { s with lastBlock := blockNo }
  | acquired (hheld : s.rotating = some g) (hgrow : s.lastBlock < blockNo) :
      Change g s { s with lastBlock := blockNo, given := blockNo :: s.given }
  | started (hheld : s.rotating = some g) (hwhole : s.half = false)
      (hfits : blockNo.toNat < 2 ^ 31) (hgiven : blockNo ∈ s.given) (hlt : s.block < blockNo)
      (hlast : blockNo ≤ s.lastBlock) :
      Change g s { s with next := blockStart blockNo, block := blockNo, half := true }
  | ended (hheld : s.rotating = some g) (hhalf : s.half = true) :
      Change g s { s with end_ := blockEnd s.block, half := false }
  | unlocked (hheld : s.rotating = some g) (hwhole : s.half = false) :
      Change g s { s with rotating := none }

variable (h : Issued s)

include h

theorem toNat_next_succ : (s.next + 1).toNat = s.next.toNat + 1 := by
  have hfits := h.fits
  have hhigh := h.high
  rw [UInt64.toNat_add, show (1 : UInt64).toNat = 1 from rfl, mod_eq_of_lt (by omega)]

theorem whole_of_lt (hlt : s.next.toNat < s.end_.toNat) : s.half = false := by
  have hstart := (toNat_blockStart h.fits).1
  have hlow := h.low
  cases hhalf : s.half with
  | false => rfl
  | true =>
    have hend := h.half hhalf
    omega

omit h in
theorem start_above {blockNo : UInt64} (hfits : blockNo.toNat < 2 ^ 31) (hlt : s.block < blockNo) :
    (s.block.toNat + 1) * 2 ^ 20 ≤ (blockStart blockNo).toNat := by
  exact (mul_le_mul_right _ hlt).trans (toNat_blockStart hfits).1

theorem issued_change (hchange : Change g s s') : Issued s' := by
  cases hchange with
  | same => exact h
  | issued hlt =>
    have hwhole := whole_of_lt h hlt
    have hend := h.whole hwhole
    have hlow := h.low
    have hstart := toNat_blockStart h.fits
    have hsucc := toNat_next_succ h
    refine { h with low := ?_, high := ?_, below := ?_, distinct := ?_, placed := ?_ }
    · simp only [hsucc]
      omega
    · simp only [hsucc]
      omega
    · intro id hid
      simp only [hsucc]
      rcases List.mem_cons.mp hid with rfl | hold
      · exact lt_succ_self _
      · exact lt_succ_of_lt (h.below id hold)
    · have hnew : s.next ∉ s.ids := fun hmem => lt_irrefl _ (h.below _ hmem)
      exact List.nodup_cons.mpr ⟨hnew, h.distinct⟩
    · intro id hid
      rcases List.mem_cons.mp hid with rfl | hold
      · exact ⟨by omega, s.block, h.given, h.fits, by omega, by omega⟩
      · exact h.placed id hold
  | locked =>
    exact { h with free := nofun }
  | refused _ hgrow =>
    exact { h with last := UInt64.le_of_lt (UInt64.lt_of_le_of_lt h.last hgrow) }
  | acquired _ hgrow =>
    refine { h with
      given := .tail _ h.given
      last := UInt64.le_of_lt (UInt64.lt_of_le_of_lt h.last hgrow)
      placed := fun id hid => ?_ }
    obtain ⟨hpos, b, hb, hplaced⟩ := h.placed id hid
    exact ⟨hpos, b, .tail _ hb, hplaced⟩
  | started hheld hwhole hfits hgiven hlt hlast =>
    have hend := h.whole hwhole
    have hhigh := h.high
    have hstart := toNat_blockStart hfits
    have hlt : s.block.toNat < _ := UInt64.lt_iff_toNat_lt.mp hlt
    refine ⟨hfits, hgiven, hlast, le_refl _, hstart.2.2.le, nofun,
      fun _ => ?_, fun hnone => ?_, fun id hid => ?_, h.distinct, h.placed⟩
    · dsimp only
      omega
    · rw [hheld] at hnone
      cases hnone
    · have hbelow := h.below id hid
      dsimp only
      omega
  | ended =>
    exact ⟨h.fits, h.given, h.last, h.low, h.high, fun _ => toNat_blockEnd h.fits,
      nofun, fun _ => rfl, h.below, h.distinct, h.placed⟩
  | unlocked _ hwhole =>
    exact { h with free := fun _ => hwhole }

theorem next_mono (hchange : Change g s s') :
    s.next.toNat ≤ s'.next.toNat ∧ s.end_.toNat ≤ s'.end_.toNat := by
  cases hchange with
  | issued =>
    have hsucc := toNat_next_succ h
    exact ⟨by simp only [hsucc]; omega, le_refl _⟩
  | started _ _ hfits _ hlt =>
    exact ⟨h.high.trans (start_above hfits hlt), le_refl _⟩
  | ended _ hhalf =>
    have hend := h.half hhalf
    refine ⟨le_refl _, ?_⟩
    rw [toNat_blockEnd h.fits]
    exact hend.trans (mul_le_mul_right _ (le_succ _))
  | _ => exact ⟨le_refl _, le_refl _⟩

theorem swap_change (hchange : Change g s s') (hle : n.toNat ≤ s.next.toNat)
    (hlt : s.next = n → n.toNat < s.end_.toNat) (heq : s'.next = n) : n.toNat < s'.end_.toNat := by
  have hmono := (next_mono h hchange).2
  have hsame : s.next = n → n.toNat < s'.end_.toNat := fun hnext => (hlt hnext).trans_le hmono
  cases hchange with
  | issued =>
    omega
  | started _ _ hfits _ hlt' =>
    -- the new start is not below the old end
    have habove := start_above hfits hlt'
    have hhigh := h.high
    have hn : (blockStart _).toNat = n.toNat := congrArg UInt64.toNat heq
    have hnext : s.next = n := UInt64.toNat_inj.mp (by omega)
    have hbelow := hlt hnext
    omega
  | _ => exact hsame heq

theorem knows_change (hchange : Change g s s') (hne : g' ≠ g) (hknows : Knows g' s pc) :
    Knows g' s' pc := by
  have hmono := (next_mono h hchange).1
  -- another goroutine does not have the rotation
  have hheld : s.rotating = some g' → s'.rotating = s.rotating ∧ s'.half = s.half ∧
      s'.block = s.block ∧ s'.given = s.given ∧ s'.lastBlock = s.lastBlock := by
    intro hrotating
    have habsurd : ∀ {P : Prop}, s.rotating = some g → P := by
      intro P hother
      rw [hrotating] at hother
      exact absurd (Option.some.inj hother) hne
    cases hchange with
    | same | issued => exact ⟨rfl, rfl, rfl, rfl, rfl⟩
    | locked hfree =>
      rw [hrotating] at hfree
      cases hfree
    | refused hother | acquired hother | started hother | ended hother | unlocked hother =>
      exact habsurd hother
  cases pc with
  | loadedNext => exact hknows.trans hmono
  | swap => exact ⟨hknows.1.trans hmono, swap_change h hchange hknows.1 hknows.2⟩
  | acquire | release =>
    obtain ⟨hrot, hhalf, -, -, -⟩ := hheld hknows.1
    exact ⟨hrot ▸ hknows.1, hhalf ▸ hknows.2⟩
  | storeStart =>
    obtain ⟨hrot, hhalf, hblock, hgiven, hlast⟩ := hheld hknows.1
    obtain ⟨hmine, hwhole, hsmall, hmem, habove, hle⟩ := hknows
    exact ⟨hrot ▸ hmine, hhalf ▸ hwhole, hsmall, hgiven ▸ hmem, hblock ▸ habove, hlast ▸ hle⟩
  | storeEnd =>
    obtain ⟨hrot, hhalf, hblock, -, -⟩ := hheld hknows.1
    exact ⟨hrot ▸ hknows.1, hhalf ▸ hknows.2.1, hblock ▸ hknows.2.2⟩
  | _ => trivial

theorem change_step (hknows : Knows g s pc)
    (hgrow : ∀ blockNo, a = .acquired (some blockNo) → s.lastBlock < blockNo)
    (hstep : step g s pc a = some (s', pc')) : Change g s s' ∧ Knows g s' pc' := by
  apply of_eq_some (P := fun r => Change g s r.1 ∧ Knows g r.1 r.2) hstep
  fun_cases step g s pc a with
  | case1 | case5 | case6 | case8 => exact ⟨.same, trivial⟩
  | case2 => exact ⟨.same, le_refl _⟩
  | case3 =>
    refine ⟨.same, ?_⟩
    split_ifs with hlt
    · exact ⟨hknows, fun _ => UInt64.lt_iff_toNat_lt.mp hlt⟩
    · trivial
  | case4 => exact ⟨.issued (hknows.2 rfl), trivial⟩
  | case7 _ hfree => exact ⟨.locked hfree, rfl, h.free hfree⟩
  | case9 => exact ⟨.same, hknows⟩
  | case10 blockNo => exact ⟨.refused hknows.1 (hgrow blockNo rfl), hknows⟩
  | case11 blockNo hfits =>
    have hlast := hgrow blockNo rfl
    exact ⟨.acquired hknows.1 hlast, hknows.1, hknows.2, toNat_le_of_not_lt hfits, .head _,
      UInt64.lt_of_le_of_lt h.last hlast, UInt64.le_refl _⟩
  | case12 =>
    obtain ⟨hheld, hwhole, hfits, hgiven, hlt, hlast⟩ := hknows
    exact ⟨.started hheld hwhole hfits hgiven hlt hlast, hheld, rfl, rfl⟩
  | case13 =>
    obtain ⟨hheld, hhalf, rfl⟩ := hknows
    dsimp only [Option.elim]
    exact ⟨.ended hheld hhalf, hheld, rfl⟩
  | case14 failed =>
    refine ⟨.unlocked hknows.1 hknows.2, ?_⟩
    cases failed <;> trivial
  | case15 =>
    refine ⟨.same, ?_⟩
    split <;> trivial
  | case16 => trivial

end Steps

theorem issued_newIDGen (h : newIDGen initialBlock acquireBlock = some s) :
    Holds Issued Knows s := by
  unfold newIDGen at h
  split_ifs at h with hmax
  cases h
  have hfits := toNat_le_of_not_lt hmax
  have hstart := toNat_blockStart hfits
  refine ⟨⟨hfits, .head _, UInt64.le_refl _, le_refl _, hstart.2.2.le,
    fun _ => toNat_blockEnd hfits, fun hhalf => ?_, fun _ => rfl, by simp, List.nodup_nil, by simp⟩,
    fun _ => trivial⟩
  cases hhalf

theorem issued_of_reach
    (h : Reach IDGen.next (fun s => newIDGen initialBlock acquireBlock = some s) growing s) :
    Holds Issued Knows s := by
  refine Holds.of_reach h (fun s hinit => issued_newIDGen hinit) ?_
  intro s g a e p hinv hguard hstep
  have hgrow : ∀ blockNo, a = .acquired (some blockNo) → s.shared.lastBlock < blockNo := by
    rintro blockNo rfl
    exact hguard
  obtain ⟨hchange, hown⟩ := change_step hinv.shared (hinv.knows g) hgrow hstep
  refine ⟨issued_change hinv.shared hchange, hown, ?_⟩
  intro g' p' hne hknows
  exact knows_change hinv.shared hchange hne hknows

/-- Ids are distinct, lie in given blocks, and are neither zero nor static ids. -/
theorem ids_unique {initialBlock : UInt64} {acquireBlock : Bool} {s : Threads Gen PC}
    (h : Reach IDGen.next (fun s => newIDGen initialBlock acquireBlock = some s) growing s) :
    s.shared.ids.Nodup ∧
      ∀ id ∈ s.shared.ids, (∃ b ∈ s.shared.given, inBlock b id) ∧
        1 ≤ id.toNat ∧ id.toNat ≤ 2 ^ 51 - 1 := by
  have hissued := (issued_of_reach h).shared
  refine ⟨hissued.distinct, fun id hid => ?_⟩
  obtain ⟨hpos, b, hb, hfits, hin⟩ := hissued.placed id hid
  refine ⟨⟨b, hb, hin⟩, hpos, ?_⟩
  have hlt := hin.2
  omega

theorem ids_unique_two_callers :
    ∃ s, Reach IDGen.next (fun s => newIDGen 0 true = some s) growing s ∧
      s.shared.ids = [2, 1] ∧ s.shared.ids.Nodup ∧
      ∀ id ∈ s.shared.ids, (∃ b ∈ s.shared.given, inBlock b id) ∧
        1 ≤ id.toNat ∧ id.toNat ≤ 2 ^ 51 - 1 := by
  refine exists_reach_imp (P := fun s => s.shared.ids = [2, 1])
    (exists_of_run rfl (fun _ l => l.2 matches .run)
      ([0, 0, 1, 1, 0, 1, 0, 1, 1, 1, 1].map fun g => (g, .run))
      (fun s l _ hrun => by
        obtain ⟨g, a⟩ := l
        cases a with
        | run => trivial
        | acquired => cases hrun)
      (by decide +kernel)) ?_
  intro s hreach hids
  exact ⟨hids, ids_unique hreach⟩

end CubeCore.IDGen
