import CubeCore.FlusherSystem
import CubeCore.KeptOperations
import CubeCore.PersistDirty

namespace CubeCore.MaskConservation

open SaveItems JournalQueue BatchDedup KeptOperations FlusherSystem PersistDirty List

variable {V : Type} {item x : SaveItem V} {ops : List (SaveItem V)} {k b : Nat}

def survivors : List (SaveItem V) → List (SaveItem V)
  | [] => []
  | x :: ops =>
    if x.isRemove = false ∧ ∀ y ∈ ops, y.target = x.target → y.isRemove = false then
      x :: survivors ops
    else survivors ops

/-- The trackers and masks that `rollbackPersistItem` puts back. -/
def rolledBack (item : SaveItem V) : List SaveTarget :=
  if item.targets = [] then [⟨item.tracker, item.mask⟩] else item.targets

def carries (item : SaveItem V) (k b : Nat) : Prop :=
  ∃ st ∈ rolledBack item, st.tracker = some k ∧ hasBit st.mask b = true

/-- `appendSaveTargets` finds nothing to append for the item. -/
def Silent (item : SaveItem V) : Prop :=
  item.targets = [] ∧ (item.tracker = none ∨ item.mask = 0)

instance (item : SaveItem V) (k b : Nat) : Decidable (carries item k b) :=
  inferInstanceAs (Decidable (∃ st ∈ _, _))

instance (item : SaveItem V) : Decidable (Silent item) :=
  inferInstanceAs (Decidable (_ ∧ _))

/-- What saves that lack a tracker or a mask add up to: the tracker of the newest version that has
one and the masks of all. -/
def stray (tracker : Option Nat) (mask : UInt64) (version : Nat) :
    List (SaveItem V) → Option SaveTarget
  | [] => none
  | x :: run =>
    let tracker' := if version ≤ x.version then x.tracker <|> tracker else tracker
    if ¬ Silent x then none
    else if tracker' ≠ none ∧ mask ||| x.mask ≠ 0 then some ⟨tracker', mask ||| x.mask⟩
    else stray tracker' (mask ||| x.mask) (max version x.version) run

theorem hasBit_rollbackPersistItem (dirty : Nat → UInt64) (item : SaveItem V) :
    hasBit (rollbackPersistItem dirty item k) b = true ↔
      hasBit (dirty k) b = true ∨ carries item k b := by
  unfold rollbackPersistItem carries
  change hasBit ((rolledBack item).foldl _ dirty k) b = true ↔ _
  induction rolledBack item generalizing dirty with
  | nil => simp
  | cons st rest ih =>
    rw [foldl_cons, ih]
    simp only [mem_cons, or_and_right, exists_or, exists_eq_left]
    cases htracker : st.tracker with
    | none => simp
    | some j =>
      rcases eq_or_ne k j with rfl | hj
      · simp [or_assoc]
      · simp [hj, Ne.symm hj]

theorem hasBit_rollbackPersistItems (dirty : Nat → UInt64) (items : List (SaveItem V)) :
    hasBit (rollbackPersistItems dirty items k) b = true ↔
      hasBit (dirty k) b = true ∨ ∃ item ∈ items, carries item k b := by
  unfold rollbackPersistItems
  induction items generalizing dirty with
  | nil => simp
  | cons item items ih =>
    rw [foldl_cons, ih, hasBit_rollbackPersistItem, or_assoc]
    simp only [mem_cons, or_and_right, exists_or, exists_eq_left]

theorem mem_appendSaveTargets (targets : List SaveTarget) (item : SaveItem V) :
    ∃ added, appendSaveTargets targets item = targets ++ added ∧
      (carries item k b ↔ ∃ st ∈ added, st.tracker = some k ∧ hasBit st.mask b = true) ∧
      (added = [] ↔ Silent item) := by
  unfold appendSaveTargets carries rolledBack Silent
  by_cases htargets : item.targets = []
  · rw [if_neg (not_not.mpr htargets)]
    split_ifs with hown
    · exact ⟨_, rfl, Iff.rfl, by simp [hown]⟩
    · rw [not_and_or, not_not, not_not] at hown
      refine ⟨[], by simp, ?_, by simp [htargets, hown]⟩
      rcases hown with heq | heq <;> simp [heq]
  · rw [if_neg htargets, if_pos htargets]
    exact ⟨_, rfl, Iff.rfl, by simp [htargets]⟩

theorem mergeSaveItem_targets (x item : SaveItem V) :
    (mergeSaveItem x item).targets = mergeSaveTargets x item := by
  unfold mergeSaveItem
  split <;> rfl

theorem not_carries_of_silent (h : Silent item) : ¬ carries item k b := by
  obtain ⟨htargets, hown⟩ := h
  rcases hown with heq | heq <;> simp [carries, rolledBack, htargets, heq]

theorem carries_mergeSaveItem (h : ¬ (Silent x ∧ Silent item)) :
    ¬ Silent (mergeSaveItem x item) ∧
      (carries (mergeSaveItem x item) k b ↔ carries x k b ∨ carries item k b) := by
  have htargets := mergeSaveItem_targets x item
  obtain ⟨first, hfirst, hcarries, hnone⟩ := mem_appendSaveTargets (k := k) (b := b) [] x
  obtain ⟨second, hsecond, hcarries', hnone'⟩ := mem_appendSaveTargets (k := k) (b := b)
    (appendSaveTargets [] x) item
  rw [mergeSaveTargets, hsecond, hfirst, nil_append] at htargets
  have hne : (mergeSaveItem x item).targets ≠ [] := by
    rwa [htargets, Ne, append_eq_nil_iff, hnone, hnone']
  refine ⟨fun hsilent => hne hsilent.1, ?_⟩
  rw [hcarries, hcarries', ← exists_or, carries, rolledBack, if_neg hne, htargets]
  simp only [mem_append, or_and_right]

theorem carries_merged (h : ¬ Silent x) (run : List (SaveItem V)) :
    carries (run.foldl mergeSaveItem x) k b ↔ carries x k b ∨ ∃ y ∈ run, carries y k b := by
  induction run generalizing x with
  | nil => simp
  | cons item run ih =>
    have hboth : ¬ (Silent x ∧ Silent item) := fun hboth => h hboth.1
    obtain ⟨hmerged, hcarries⟩ := carries_mergeSaveItem (k := k) (b := b) hboth
    simp only [foldl_cons, ih hmerged, hcarries, or_assoc, exists_mem_cons_iff]

theorem mergeSaveItem_silent (hx : Silent x) (hitem : Silent item) :
    (mergeSaveItem x item).targets = [] ∧
      (mergeSaveItem x item).mask = x.mask ||| item.mask ∧
      (mergeSaveItem x item).version = max x.version item.version ∧
      (mergeSaveItem x item).tracker =
        if x.version ≤ item.version then item.tracker <|> x.tracker else x.tracker := by
  have hnone {y : SaveItem V} (hy : Silent y) (targets : List SaveTarget) :
      appendSaveTargets targets y = targets := by
    obtain ⟨added, happend, -, hadded⟩ := mem_appendSaveTargets (k := 0) (b := 0) targets y
    rw [happend, hadded.mpr hy, append_nil]
  have htargets : mergeSaveTargets x item = [] := by rw [mergeSaveTargets, hnone hitem, hnone hx]
  unfold mergeSaveItem
  split
  · rename_i hversion
    refine ⟨htargets, UInt64.or_comm _ _, (max_eq_right hversion).symm, ?_⟩
    cases item.tracker <;> simp
  · rename_i hversion
    exact ⟨htargets, rfl, (max_eq_left (Nat.le_of_not_le hversion)).symm, rfl⟩

/-- The pair `st` has the bit `b` for the tracker `k`. -/
def hits (k b : Nat) (st : SaveTarget) : Prop :=
  st.tracker = some k ∧ hasBit st.mask b = true

theorem carries_silent (h : Silent x) (run : List (SaveItem V)) :
    carries (run.foldl mergeSaveItem x) k b ↔ (∃ y ∈ run, carries y k b) ∨
      ∃ st ∈ stray x.tracker x.mask x.version run, hits k b st := by
  induction run generalizing x with
  | nil => simp [stray, not_carries_of_silent h]
  | cons item run ih =>
    rw [foldl_cons, exists_mem_cons_iff, stray]
    by_cases hitem : Silent item
    · obtain ⟨htargets, hmask, hversion, htracker⟩ := mergeSaveItem_silent h hitem
      rw [if_neg (not_not.mpr hitem), ← hmask, ← hversion, ← htracker,
        or_iff_right (not_carries_of_silent hitem)]
      split_ifs with hboth
      · have hmerged : ¬ Silent (mergeSaveItem x item) := fun hs => hs.2.elim hboth.1 hboth.2
        rw [carries_merged hmerged, or_comm]
        simp [carries, rolledBack, htargets, hits]
      · rw [ih ⟨htargets, by tauto⟩]
    · obtain ⟨hmerged, hcarries⟩ := carries_mergeSaveItem (k := k) (b := b) (x := x)
        fun hboth => hitem hboth.2
      simp [carries_merged hmerged, hcarries, hitem, not_carries_of_silent h]

theorem mergeAll_cons (x : SaveItem V) (run : List (SaveItem V)) :
    mergeAll (x :: run) = some (run.foldl mergeSaveItem x) := by
  induction run using reverseRecOn with
  | nil => rfl
  | append_singleton run y ih => rw [← cons_append, mergeAll_snoc, ih, foldl_append]; rfl

theorem carries_mergeAll {run : List (SaveItem V)} :
    (∃ m, mergeAll run = some m ∧ carries m k b) ↔
      (∃ x ∈ run, carries x k b) ∨ ∃ st ∈ stray none 0 0 run, hits k b st := by
  cases run with
  | nil => simp [mergeAll, stray]
  | cons x run =>
    simp only [mergeAll_cons, Option.some.injEq, exists_eq_left', exists_mem_cons_iff, stray]
    by_cases hx : Silent x
    · have hnot : ¬ (x.tracker ≠ none ∧ x.mask ≠ 0) := fun hboth => hx.2.elim hboth.1 hboth.2
      simp [carries_silent hx, hx, not_carries_of_silent hx, hnot]
    · simp [carries_merged hx, hx]

theorem survivors_snoc (ops : List (SaveItem V)) (x : SaveItem V) :
    survivors (ops ++ [x]) =
      if x.isRemove then (survivors ops).filter fun y => y.target ≠ x.target
      else survivors ops ++ [x] := by
  induction ops with
  | nil => cases hx : x.isRemove <;> simp [survivors, hx]
  | cons y ops ih =>
    rw [cons_append, survivors, survivors, ih]
    simp only [forall_mem_append, forall_mem_singleton]
    by_cases hy : y.isRemove = false ∧ ∀ z ∈ ops, z.target = y.target → z.isRemove = false
    · rw [if_pos hy]
      simp only [hy.1, true_and, and_iff_right hy.2]
      cases hx : x.isRemove with
      | false => simp
      | true =>
        by_cases ht : y.target = x.target
        · simp [ht]
        · simp [ht, Ne.symm ht]
    · rw [if_neg hy, if_neg fun hboth => hy ⟨hboth.1, hboth.2.1⟩]

theorem mem_lastRun_opsOn {t : Target} :
    x ∈ lastRun (opsOn t ops) ↔ x.target = t ∧ x ∈ survivors ops := by
  induction ops using reverseRecOn with
  | nil => simp [survivors, opsOn]
  | append_singleton ops y ih =>
    rw [survivors_snoc]
    rcases eq_or_ne y.target t with rfl | ht
    · rw [opsOn_snoc_self rfl]
      cases hy : y.isRemove with
      | true =>
        rw [lastRun_remove _ hy, if_pos rfl, mem_filter]
        simp_all
      | false =>
        rw [lastRun_save _ hy, mem_append, ih]
        by_cases hxy : x = y <;> simp [hxy]
    · rw [opsOn_snoc_other ht, ih]
      refine and_congr_right fun hx => ?_
      have hne : x ≠ y := fun heq => ht (heq ▸ hx)
      split <;> simp [hx, Ne.symm ht, hne]

theorem hasBit_rollback_dedup {entries : List (JournalEntry V)} (dirty : Nat → UInt64) :
    hasBit (rollbackPersistItems dirty (dedup entries).saves k) b = true ↔
      hasBit (dirty k) b = true ∨ (∃ item ∈ survivors (opsOf entries), carries item k b) ∨
        ∃ t, ∃ st ∈ stray none 0 0 (lastRun (opsOn t (opsOf entries))), hits k b st := by
  have hsaves : (∃ w ∈ (dedup entries).saves, carries w k b) ↔
      ∃ t w, mergeAll (lastRun (opsOn t (opsOf entries))) = some w ∧ carries w k b := by
    simp only [mem_saves_iff, ← saveMap_lookup]
    refine ⟨fun ⟨w, hw, hcarries⟩ => ⟨_, w, hw, hcarries⟩, fun ⟨t, w, hw, hcarries⟩ => ?_⟩
    exact ⟨w, (saveMap_provenance hw).1 ▸ hw, hcarries⟩
  rw [hasBit_rollbackPersistItems, hsaves]
  simp only [carries_mergeAll, mem_lastRun_opsOn, exists_or, and_assoc]
  rw [exists_comm]
  simp

/-- The rollback of a batch gives every tracker the bits of its surviving saves and no others,
unless saves with half a pair add up to one that none of them has. -/
theorem rollback_conserves_iff (entries : List (JournalEntry V)) :
    (∀ dirty k b, hasBit (rollbackPersistItems dirty (dedup entries).saves k) b = true ↔
      hasBit (dirty k) b = true ∨ ∃ item ∈ survivors (opsOf entries), carries item k b) ↔
      ∀ t, ∀ st ∈ stray none 0 0 (lastRun (opsOn t (opsOf entries))), ∀ k b, hits k b st →
        ∃ item ∈ survivors (opsOf entries), carries item k b := by
  simp only [hasBit_rollback_dedup]
  constructor
  · intro h t st hst k b hhits
    exact ((h (fun _ => 0) k b).mp (.inr (.inr ⟨t, st, hst, hhits⟩))).resolve_left (by simp)
  · intro h dirty k b
    exact or_congr_right (or_iff_left_of_imp fun ⟨t, st, hst, hhits⟩ => h t st hst k b hhits)

def heroItem (version : Nat) (tracker : Option Nat) (mask : UInt64) : SaveItem Nat :=
  { SaveItem.full ⟨"db", .global, "hero", 7⟩ version [1] with tracker := tracker, mask := mask }

def mageItem : SaveItem Nat :=
  { SaveItem.full ⟨"db", .global, "mage", 8⟩ 1 [1] with mask := 4 }

def twoHeroes : List (JournalEntry Nat) :=
  [⟨[heroItem 1 (some 0) 1, mageItem, heroItem 2 (some 0) 2]⟩]

theorem rollback_conserves_iff_lone :
    hasBit (rollbackPersistItems (fun _ => 0) (BatchDedup.dedup twoHeroes).saves 0) 1 = true := by
  have hnone (t : Target) : stray none 0 0 (lastRun (opsOn t (opsOf twoHeroes))) = none := by
    by_cases hhero : (heroItem 0 none 0).target = t
    · subst hhero
      decide +kernel
    by_cases hmage : mageItem.target = t
    · subst hmage
      decide +kernel
    have hnil : opsOn t (opsOf twoHeroes) = [] := by
      simp_all [opsOn, opsOf, twoHeroes, heroItem, mageItem, SaveItem.full]
    rw [hnil]
    rfl
  have hall := (rollback_conserves_iff twoHeroes).mpr (by simp [hnone])
  have hitem : ∃ item ∈ survivors (opsOf twoHeroes), carries item 0 1 := by decide +kernel
  exact (hall (fun _ => 0) 0 1).mpr (.inr hitem)

/-- A save with a tracker and no mask is merged with one that has a mask and no tracker. -/
theorem rollback_spurious :
    hasBit (rollbackPersistItems (fun _ => 0)
        (dedup [⟨[heroItem 1 (some 0) 0, heroItem 2 none 1]⟩]).saves 0) 0 = true ∧
      ¬ ∃ item ∈ survivors (opsOf [⟨[heroItem 1 (some 0) 0, heroItem 2 none 1]⟩]),
        carries item 0 0 := by
  decide +kernel

end CubeCore.MaskConservation
