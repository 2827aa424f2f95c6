import CubeCore.Interleaving
import CubeCore.TouchWord

namespace CubeCore.EntityLifecycle

open Interleaving TouchWord TransitionSystem Function

inductive Op where
  | touch
  | unTouch
  | setRemoved
  | clearBase
deriving DecidableEq

/-- Where a goroutine is: before the load of a CAS loop, before its CAS, or in
`doClear`. -/
inductive PC where
  | idle
  | loading (op : Op)
  | loaded (op : Op) (old : BitVec 32)
  | clearing (op : Op)
deriving DecidableEq

/-- Ghost data: the calls of `Touch` that succeeded and of `UnTouch`, whether the entity was
removed, and touched then, how often `doClear` was begun and by whom. -/
structure Entity where
  tryTouch : BitVec 32
  touches : Nat
  unTouches : Nat
  removed : Bool
  removedTouched : Bool
  clears : Nat
  clearer : Option Op

variable (e : Entity)

def Entity.outstanding : Nat := e.touches - e.unTouches

abbrev Life := Threads Entity PC

def initial : Life where
  shared := ⟨0, 0, 0, false, false, 0, none⟩
  pc _ := .idle

inductive Act where
  | call (op : Op)
  | load
  | cas
  | cleared
deriving DecidableEq

/-- The first step of a call. `UnTouch` decrements at once. -/
def call : Op → Entity × PC
  | .unTouch =>
    let new := e.tryTouch - 1
    ({ e with tryTouch := new, unTouches := e.unTouches + 1 },
      if new &&& removedBit ≠ 0 ∧ new &&& touchCntMask = 0 then .loading .unTouch else .idle)
  | op => (e, .loading op)

/-- What a CAS loop does with the value it has loaded: it gives up or goes on. -/
def load (old : BitVec 32) : Op → PC
  | .touch => if old &&& (removedBit ||| clearedBit) ≠ 0 then .idle else .loaded .touch old
  | .unTouch => if old &&& clearedBit ≠ 0 then .idle else .loaded .unTouch old
  | .setRemoved => .loaded .setRemoved old
  | .clearBase =>
    if old &&& clearedBit ≠ 0 then .idle
    else if old &&& touchCntMask ≠ 0 then .idle
    else .loaded .clearBase old

/-- A CAS that succeeds. -/
def swap (old : BitVec 32) : Op → Entity × PC
  | .touch => ({ e with tryTouch := old + 1, touches := e.touches + 1 }, .idle)
  | .setRemoved =>
    ({ e with
        tryTouch := old ||| removedBit
        removed := true
        removedTouched := e.removedTouched || (!e.removed && 0 < e.outstanding) }, .idle)
  | op =>
    ({ e with
        tryTouch := old ||| clearedBit
        clears := e.clears + 1
        clearer := some op }, .clearing op)

def step : PC → Act → Option (Entity × PC)
  | .idle, .call op => some (call e op)
  | .loading op, .load => some (e, load e.tryTouch op)
  | .loaded op old, .cas =>
    if e.tryTouch = old then some (swap e old op) else some (e, .loading op)
  | .clearing _, .cleared => some (e, .idle)
  | _, _ => none

def next : Life → Nat × Act → Option Life := Interleaving.next fun _ => step

/-- At most one `UnTouch` for each `Touch`, and fewer outstanding than the mask has room for. -/
def wellUsed (s : Life) : Nat × Act → Prop
  | (g, a) =>
    (s.pc g = .idle → a = .call .unTouch → s.shared.unTouches < s.shared.touches) ∧
      ∀ old, s.pc g = .loaded .touch old → a = .cas →
        s.shared.outstanding + 1 < touchCntMask.toNat

structure Counted (e : Entity) : Prop where
  matched : e.unTouches ≤ e.touches
  few : e.outstanding < touchCntMask.toNat
  once : e.clears ≤ 1
  word : Word e.tryTouch e.outstanding e.removed (decide (0 < e.clears))
  unused : 0 < e.clears → e.outstanding = 0
  removed : e.removedTouched = true → e.removed = true
  clearer : e.clears = 1 → e.clearer = some .unTouch ∨ e.clearer = some .clearBase

def Knows : PC → Prop
  | .loaded .touch old => old &&& (removedBit ||| clearedBit) = 0
  | .loading .unTouch => e.removed = true ∧ e.outstanding = 0
  | .loaded .unTouch old =>
    e.removed = true ∧ e.outstanding = 0 ∧ old &&& clearedBit = 0 ∧
      (e.tryTouch = old ∨ e.clears = 1)
  | .loaded .clearBase old => old &&& clearedBit = 0 ∧ old &&& touchCntMask = 0
  | .clearing _ => e.clears = 1
  | _ => True

/-- A goroutine in the clear loop of an `UnTouch`. -/
def isLast : PC → Bool
  | .loading .unTouch | .loaded .unTouch _ => true
  | _ => false

section Changes

variable {e e' : Entity} {pc pc' : PC} {a : Act}

inductive Stepped (e : Entity) : PC → Act → Entity → PC → Prop where
  | call : Stepped e .idle (.call op) (call e op).1 (call e op).2
  | load : Stepped e (.loading op) .load e (load e.tryTouch op)
  | swap (heq : e.tryTouch = old) :
      Stepped e (.loaded op old) .cas (swap e old op).1 (swap e old op).2
  | again : Stepped e (.loaded op old) .cas e (.loading op)
  | cleared : Stepped e (.clearing op) .cleared e .idle

theorem stepped_of_step (h : step e pc a = some (e', pc')) : Stepped e pc a e' pc' := by
  unfold step at h
  split at h
  · obtain ⟨rfl, rfl⟩ := Prod.mk.inj (Option.some.inj h).symm
    exact .call
  · cases h
    exact .load
  · split_ifs at h with heq
    · obtain ⟨rfl, rfl⟩ := Prod.mk.inj (Option.some.inj h).symm
      exact .swap heq
    · cases h
      exact .again
  · cases h
    exact .cleared
  · cases h

inductive Change (e : Entity) : Entity → Prop where
  | same : Change e e
  | touched (hremoved : e.removed = false) (hclears : e.clears = 0)
      (hfew : e.outstanding + 1 < touchCntMask.toNat) :
      Change e { e with tryTouch := e.tryTouch + 1, touches := e.touches + 1 }
  | untouched (hmatched : e.unTouches < e.touches) :
      Change e { e with tryTouch := e.tryTouch - 1, unTouches := e.unTouches + 1 }
  | removed :
      Change e { e with
        tryTouch := e.tryTouch ||| removedBit
        removed := true
        removedTouched := e.removedTouched || (!e.removed && 0 < e.outstanding) }
  | cleared (op : Op) (hop : op = .unTouch ∨ op = .clearBase) (hclears : e.clears = 0)
      (hunused : e.outstanding = 0) :
      Change e { e with
        tryTouch := e.tryTouch ||| clearedBit
        clears := e.clears + 1
        clearer := some op }

theorem change_swap (h : Counted e) (hknows : Knows e (.loaded op old)) (heq : e.tryTouch = old)
    (hfew : op = .touch → e.outstanding + 1 < touchCntMask.toNat) :
    Change e (swap e old op).1 := by
  subst heq
  have hclears : e.tryTouch &&& clearedBit = 0 → e.clears = 0 := by
    intro hzero
    have hnot := h.word.and_clearedBit.mp hzero
    simpa using hnot
  cases op with
  | touch =>
    obtain ⟨hremoved, hcleared⟩ := h.word.and_flags.mp hknows
    exact .touched hremoved (by simpa using hcleared) (hfew rfl)
  | unTouch => exact .cleared .unTouch (.inl rfl) (hclears hknows.2.2.1) hknows.2.1
  | setRemoved => exact .removed
  | clearBase =>
    exact .cleared .clearBase (.inr rfl) (hclears hknows.1) (h.word.and_mask.mp hknows.2)

theorem change_stepped (h : Counted e) (hknows : Knows e pc)
    (hunTouch : pc = .idle → a = .call .unTouch → e.unTouches < e.touches)
    (hfew : ∀ old, pc = .loaded .touch old → a = .cas →
      e.outstanding + 1 < touchCntMask.toNat) (hstep : Stepped e pc a e' pc') : Change e e' := by
  cases hstep with
  | @call op =>
    cases op with
    | unTouch => exact .untouched (hunTouch rfl rfl)
    | _ => exact .same
  | @swap old _ heq =>
    exact change_swap h hknows heq fun htouch => hfew old (by rw [htouch]) rfl
  | _ => exact .same

theorem counted_change (h : Counted e) (hchange : Change e e') : Counted e' := by
  have hmatched := h.matched
  have hfew := h.few
  have hmask : touchCntMask.toNat < 2 ^ 30 := by decide
  cases hchange with
  | same => exact h
  | touched _ hclears hroom =>
    have hout : e.touches + 1 - e.unTouches = e.outstanding + 1 := by
      unfold Entity.outstanding
      omega
    refine ⟨Nat.le_succ_of_le hmatched, ?_, h.once, ?_, ?_, h.removed, h.clearer⟩
    · simpa [Entity.outstanding, hout] using hroom
    · simpa [Entity.outstanding, hout] using h.word.add_one (by omega)
    · intro hpos
      exact absurd hclears (Nat.pos_iff_ne_zero.mp hpos)
  | untouched hlt =>
    have hout : e.outstanding = (e.touches - (e.unTouches + 1)) + 1 := by
      unfold Entity.outstanding
      omega
    have hword := h.word
    rw [hout] at hword
    refine ⟨hlt, ?_, h.once, hword.sub_one, ?_, h.removed, h.clearer⟩
    · simp only [Entity.outstanding] at hfew hout ⊢
      omega
    · intro hpos
      have hzero := h.unused hpos
      omega
  | removed =>
    exact ⟨hmatched, hfew, h.once, h.word.or_removedBit, h.unused, fun _ => rfl, h.clearer⟩
  | cleared _ hop hclears hunused =>
    refine ⟨hmatched, hfew, by simp [hclears], ?_, fun _ => hunused, h.removed, fun _ => ?_⟩
    · simpa [Entity.outstanding] using h.word.or_clearedBit
    · exact hop.imp (congrArg some) (congrArg some)

theorem settled_change (h : Counted e) (hremoved : e.removed = true) (hunused : e.outstanding = 0)
    (hchange : Change e e') : e'.removed = true ∧ e'.outstanding = 0 ∧
      (e'.tryTouch = e.tryTouch ∧ e'.clears = e.clears ∨ e'.clears = 1) := by
  cases hchange with
  | same => exact ⟨hremoved, hunused, .inl ⟨rfl, rfl⟩⟩
  | touched hnot =>
    rw [hremoved] at hnot
    cases hnot
  | untouched =>
    unfold Entity.outstanding at hunused
    omega
  | removed =>
    have hword := h.word
    rw [hremoved] at hword
    exact ⟨rfl, hunused, .inl ⟨hword.or_removedBit_eq, rfl⟩⟩
  | cleared _ _ hclears => exact ⟨hremoved, hunused, .inr (by simp [hclears])⟩

theorem clears_change (hchange : Change e e') (hclears : e.clears = 1) : e'.clears = 1 := by
  cases hchange with
  | cleared => omega
  | _ => exact hclears

variable (h : Counted e)
include h

theorem knows_change (hchange : Change e e') (hknows : Knows e pc) : Knows e' pc := by
  cases pc with
  | loading op =>
    cases op with
    | unTouch =>
      obtain ⟨hremoved, hunused, _⟩ := settled_change h hknows.1 hknows.2 hchange
      exact ⟨hremoved, hunused⟩
    | _ => trivial
  | loaded op =>
    cases op with
    | unTouch =>
      obtain ⟨hremoved, hunused, hold, hword⟩ := hknows
      obtain ⟨hremoved', hunused', hsame | hcleared⟩ := settled_change h hremoved hunused hchange
      · refine ⟨hremoved', hunused', hold, ?_⟩
        rwa [hsame.1, hsame.2]
      · exact ⟨hremoved', hunused', hold, .inr hcleared⟩
    | touch | clearBase => exact hknows
    | setRemoved => trivial
  | clearing => exact clears_change hchange hknows
  | idle => trivial

theorem clears_swap (hknows : Knows e (.loaded op old)) (heq : e.tryTouch = old)
    (hop : op = .unTouch ∨ op = .clearBase) :
    Knows (swap e old op).1 (swap e old op).2 := by
  rcases hop with rfl | rfl
  all_goals
    have hswap := change_swap h hknows heq Op.noConfusion
    have honce : e.clears + 1 ≤ 1 := (counted_change h hswap).once
    show e.clears + 1 = 1
    omega

theorem knows_stepped (hknows : Knows e pc)
    (hunTouch : pc = .idle → a = .call .unTouch → e.unTouches < e.touches)
    (hstep : Stepped e pc a e' pc') : Knows e' pc' := by
  cases hstep with
  | @call op =>
    cases op with
    | unTouch =>
      have hcounted := counted_change h (.untouched (hunTouch rfl rfl))
      simp only [call]
      split_ifs with hzero
      · refine ⟨?_, hcounted.word.and_mask.mp hzero.2⟩
        have hbit := mt hcounted.word.and_removedBit.mpr hzero.1
        simpa using hbit
      · trivial
    | _ => trivial
  | @load op =>
    cases op with
    | touch =>
      simp only [load]
      split_ifs with hflags
      · trivial
      · exact not_not.mp hflags
    | unTouch =>
      simp only [load]
      split_ifs with hflag
      · trivial
      · exact ⟨hknows.1, hknows.2, not_not.mp hflag, .inl rfl⟩
    | setRemoved => trivial
    | clearBase =>
      simp only [load]
      split
      · trivial
      split
      · trivial
      · rename_i hflag hcount
        exact ⟨not_not.mp hflag, not_not.mp hcount⟩
  | @swap _ op heq =>
    cases op with
    | unTouch => exact clears_swap h hknows heq (.inl rfl)
    | clearBase => exact clears_swap h hknows heq (.inr rfl)
    | _ => trivial
  | @again op =>
    cases op with
    | unTouch => exact ⟨hknows.1, hknows.2.1⟩
    | _ => trivial
  | cleared => trivial

theorem last_stepped (hknows : Knows e pc) (hlast : isLast pc = true)
    (hstep : Stepped e pc a e' pc') : e'.clears = 1 ∨ isLast pc' = true := by
  cases hstep with
  | @load op =>
    cases op with
    | unTouch =>
      simp only [load]
      split_ifs with hflag
      · have hcleared := mt h.word.and_clearedBit.mpr hflag
        have hne : e.clears ≠ 0 := by simpa using hcleared
        exact .inl (Nat.le_antisymm h.once (Nat.pos_of_ne_zero hne))
      · exact .inr rfl
    | _ => cases hlast
  | @swap _ op heq =>
    cases op with
    | unTouch => exact .inl (clears_swap h hknows heq (.inl rfl))
    | _ => cases hlast
  | @again op =>
    cases op with
    | unTouch => exact .inr rfl
    | _ => cases hlast
  | _ => cases hlast

theorem last_of_unTouch (hlt : e.unTouches < e.touches) (hremoved : e.removed = true)
    (hunused : (call e .unTouch).1.outstanding = 0) : (call e .unTouch).2 = .loading .unTouch := by
  have hword := (counted_change h (.untouched hlt)).word
  have hcond : e.tryTouch - 1 &&& removedBit ≠ 0 ∧ e.tryTouch - 1 &&& touchCntMask = 0 := by
    refine ⟨fun hzero => ?_, hword.and_mask.mpr hunused⟩
    have hnot := hword.and_removedBit.mp hzero
    rw [hremoved] at hnot
    cases hnot
  simp only [call]
  rw [if_pos hcond]

theorem removedTouched_of_stepped (hne : pc = .idle → a ≠ .call .unTouch)
    (hstep : Stepped e pc a e' pc') (hremoved : e'.removedTouched = true)
    (hunused : e'.outstanding = 0) : e.removedTouched = true ∧ e.outstanding = 0 := by
  cases hstep with
  | @call op =>
    cases op with
    | unTouch => exact absurd rfl (hne rfl)
    | _ => exact ⟨hremoved, hunused⟩
  | @swap _ op =>
    cases op with
    | touch =>
      have hmatched := h.matched
      simp only [swap, Entity.outstanding] at hunused
      omega
    | setRemoved =>
      have hunused : e.outstanding = 0 := hunused
      simpa [swap, hunused] using hremoved
    | _ => exact ⟨hremoved, hunused⟩
  | _ => exact ⟨hremoved, hunused⟩

end Changes

section Runs

variable {s s' : Life}

theorem keeps_step {e : Entity} (h : Holds Counted (fun _ => Knows) s) (hguard : wellUsed s (g, a))
    (hstep : step s.shared (s.pc g) a = some (e, pc)) :
    Keeps Counted (fun _ => Knows) g s.shared e pc := by
  have hstepped := stepped_of_step hstep
  have hchange := change_stepped h.shared (h.knows g) hguard.1 hguard.2 hstepped
  refine ⟨counted_change h.shared hchange, knows_stepped h.shared (h.knows g) hguard.1 hstepped, ?_⟩
  intro _ _ _ hknows
  exact knows_change h.shared hchange hknows

structure Sound (s : Life) : Prop where
  holds : Holds Counted (fun _ => Knows) s
  last : s.shared.removedTouched = true → s.shared.outstanding = 0 →
    s.shared.clears = 1 ∨ ∃ g, isLast (s.pc g) = true

theorem sound_next (h : Sound s) (hguard : wellUsed s l) (hnext : next s l = some s') :
    Sound s' := by
  obtain ⟨g, a⟩ := l
  have hknows := h.holds.knows g
  have hcounted := h.holds.shared
  refine ⟨h.holds.next ?_ hnext, ?_⟩
  · rintro g a e pc heq hstep
    cases heq
    exact keeps_step h.holds hguard hstep
  obtain ⟨e, pc, hstep, rfl⟩ := next_eq_some hnext
  intro hremoved hunused
  dsimp only at *
  by_cases hcall : s.pc g = .idle ∧ a = .call .unTouch
  · obtain ⟨hidle, rfl⟩ := hcall
    rw [hidle] at hstep
    cases hstep
    have hlast := last_of_unTouch hcounted (hguard.1 hidle rfl) (hcounted.removed hremoved) hunused
    refine .inr ⟨g, ?_⟩
    rw [update_self]
    exact congrArg isLast hlast
  have hstep := stepped_of_step hstep
  obtain ⟨hremoved', hunused'⟩ := removedTouched_of_stepped hcounted
    (fun hidle heq => hcall ⟨hidle, heq⟩) hstep hremoved hunused
  rcases h.last hremoved' hunused' with hcleared | ⟨g', hlast⟩
  · exact .inl (clears_change (change_stepped hcounted hknows hguard.1 hguard.2 hstep) hcleared)
  rcases eq_or_ne g' g with rfl | hg
  · refine (last_stepped hcounted hknows hlast hstep).imp id fun hlast' => ⟨g', ?_⟩
    rwa [update_self]
  · refine .inr ⟨g', ?_⟩
    rwa [update_of_ne hg]

theorem sound_of_reach (h : Reach next (· = initial) wellUsed s) : Sound s := by
  refine h.invariant ?_ ?_
  · rintro _ rfl
    refine ⟨⟨⟨Nat.le_refl _, by decide, Nat.zero_le _, Word.zero, fun _ => rfl, fun hr => ?_,
      fun hc => ?_⟩, fun _ => trivial⟩, fun hr => ?_⟩
    · cases hr
    · cases hc
    · cases hr
  · intro s l s' hinv hguard hnext
    exact sound_next hinv hguard hnext

theorem touches_of_flagged (h : Sound s) (hguard : wellUsed s l) (hnext : next s l = some s')
    (hflag : s.shared.removed = true ∨ 0 < s.shared.clears) :
    s'.shared.touches = s.shared.touches := by
  obtain ⟨g, a⟩ := l
  obtain ⟨e, pc, hstep, rfl⟩ := next_eq_some hnext
  cases change_stepped h.holds.shared (h.holds.knows g) hguard.1 hguard.2
    (stepped_of_step hstep) with
  | touched hremoved hclears =>
    rcases hflag with hflag | hflag
    · rw [hremoved] at hflag
      cases hflag
    · omega
  | _ => rfl

end Runs

/-- The lifecycle of an entity, in every state that well-behaved callers reach. -/
theorem lifecycle {s : Life} (h : Reach next (· = initial) wellUsed s) :
    s.shared.clears ≤ 1 ∧ (∀ g op, s.pc g = .clearing op → s.shared.outstanding = 0) ∧
      (∀ l s', wellUsed s l → next s l = some s' → s.shared.removed = true ∨ 0 < s.shared.clears →
        s'.shared.touches = s.shared.touches) ∧
      (s.shared.removedTouched = true → s.shared.outstanding = 0 →
        s.shared.clears = 1 ∧
            (s.shared.clearer = some .unTouch ∨ s.shared.clearer = some .clearBase) ∨
          ∃ g, isLast (s.pc g) = true) ∧
      ∀ g old, s.pc g = .loaded .unTouch old → s.shared.tryTouch = old ∨ s.shared.clears = 1 := by
  have hsound := sound_of_reach h
  refine ⟨hsound.holds.shared.once, fun g op hpc => ?_, fun l s' hguard hnext hflag => ?_,
    fun hremoved hunused => ?_, fun g old hpc => ?_⟩
  · have hknows := hsound.holds.knows g
    rw [hpc] at hknows
    exact hsound.holds.shared.unused (by rw [hknows]; exact Nat.one_pos)
  · exact touches_of_flagged hsound hguard hnext hflag
  · refine (hsound.last hremoved hunused).imp (fun hcleared => ?_) id
    exact ⟨hcleared, hsound.holds.shared.clearer hcleared⟩
  · have hknows := hsound.holds.knows g
    rw [hpc] at hknows
    exact hknows.2.2.2

section Traces

def usedTest (s : Life) : Nat × Act → Bool
  | (g, a) =>
    match s.pc g, a with
    | .idle, .call .unTouch => s.shared.unTouches < s.shared.touches
    | .loaded .touch _, .cas => s.shared.outstanding + 1 < touchCntMask.toNat
    | _, _ => true

theorem wellUsed_of_test (h : usedTest s l = true) : wellUsed s l := by
  obtain ⟨g, a⟩ := l
  constructor
  · rintro hpc rfl
    simpa [usedTest, hpc] using h
  · rintro old hpc rfl
    simpa [usedTest, hpc] using h

def touchedRemoved : List (Nat × Act) :=
  [(0, .call .touch), (0, .load), (0, .cas), (1, .call .setRemoved), (1, .load), (1, .cas)]

theorem lifecycle_last_unTouch :
    ∃ s, Reach next (· = initial) wellUsed s ∧ s.shared.removedTouched = true ∧
      s.shared.outstanding = 0 ∧ s.pc 0 = .clearing .unTouch ∧ s.shared.clears ≤ 1 ∧
      (s.shared.clears = 1 ∧
          (s.shared.clearer = some .unTouch ∨ s.shared.clearer = some .clearBase) ∨
        ∃ g, isLast (s.pc g) = true) := by
  refine exists_reach_imp (P := fun s => s.shared.removedTouched = true ∧ s.shared.outstanding = 0 ∧
    s.pc 0 = .clearing .unTouch)
    (exists_of_run rfl usedTest
      (touchedRemoved ++ [(0, .call .unTouch), (0, .load), (0, .cas)])
      (fun _ _ _ => wellUsed_of_test) (by decide +kernel)) ?_
  rintro s hreach ⟨hremoved, hunused, hpc⟩
  obtain ⟨honce, _, _, hlast, _⟩ := lifecycle hreach
  exact ⟨hremoved, hunused, hpc, honce, hlast hremoved hunused⟩

/-- A `ClearBase` comes between the decrement and the load of the last `UnTouch`, and runs
`doClear`. -/
theorem clearBase_overtakes :
    ∃ s, Reach next (· = initial) wellUsed s ∧ s.shared.removedTouched = true ∧
      s.shared.outstanding = 0 ∧ s.pc 0 = .idle ∧ s.pc 1 = .clearing .clearBase ∧
      s.shared.clearer = some .clearBase := by
  exact exists_of_run rfl usedTest
    (touchedRemoved ++ [(0, .call .unTouch), (1, .call .clearBase), (1, .load), (1, .cas),
      (0, .load)])
    (fun _ _ _ => wellUsed_of_test) (by decide +kernel)

end Traces

end CubeCore.EntityLifecycle
