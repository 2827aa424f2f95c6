import Mathlib.Data.List.Basic

namespace CubeCore.GroupLockTable

open Function

/-- `refs` are the goroutines that are counted in the entry's `refs`. -/
structure Entry where
  refs : List Nat
  owner : Option Nat

structure Table where
  locks : Int → Option Nat
  entry : Nat → Entry
  fresh : Nat

def Table.empty : Table := ⟨fun _ => none, fun _ => ⟨[], none⟩, 0⟩

/-- A group and the entry that `acquire` found for it. -/
structure Handle where
  group : Int
  entry : Nat
deriving DecidableEq

variable (t : Table)

def Table.modify (n : Nat) (f : Entry → Entry) : Table :=
  { t with entry := Function.update t.entry n (f (t.entry n)) }

/-- The first half of `acquire`: the entry of the group, made if there is none, with one more
reference. -/
def Table.reference (group : Int) (g : Nat) : Table × Handle :=
  match t.locks group with
  | some n => (t.modify n fun e => { e with refs := g :: e.refs }, ⟨group, n⟩)
  | none =>
    ({ locks := Function.update t.locks group (some t.fresh)
       entry := Function.update t.entry t.fresh ⟨[g], none⟩
       fresh := t.fresh + 1 }, ⟨group, t.fresh⟩)

/-- The second half of `acquire`. -/
def Table.tryLock (h : Handle) (g : Nat) : Option Table :=
  match (t.entry h.entry).owner with
  | some _ => none
  | none => some (t.modify h.entry fun e => { e with owner := some g })

/-- The first half of `release`. -/
def Table.unlock (h : Handle) : Table :=
  t.modify h.entry fun e => { e with owner := none }

def Table.releaseRef (h : Handle) (g : Nat) : Table :=
  let refs := (t.entry h.entry).refs.erase g
  let t' := t.modify h.entry fun e => { e with refs := refs }
  if refs = [] ∧ t.locks h.group = some h.entry then
    { t' with locks := Function.update t.locks h.group none }
  else t'

/-- The table against what each goroutine refers to and has locked. -/
structure Sound (t : Table) (refs held : Nat → Handle → Prop) : Prop where
  listed : ∀ {g h}, refs g h → t.locks h.group = some h.entry
  counted : ∀ {g h}, refs g h → g ∈ (t.entry h.entry).refs
  referenced : ∀ {g h}, held g h → refs g h
  locked : ∀ {g h}, held g h → (t.entry h.entry).owner = some g
  below : ∀ {group n}, t.locks group = some n → n < t.fresh
  injective : ∀ {group group' n}, t.locks group = some n → t.locks group' = some n →
    group = group'

variable {t : Table} {refs held refs' held' : Nat → Handle → Prop} {g g' : Nat} {h h' : Handle}

theorem sound_empty (hrefs : ∀ g h, ¬ refs g h) (hheld : ∀ g h, ¬ held g h) :
    Sound .empty refs held where
  listed h := absurd h (hrefs _ _)
  counted h := absurd h (hrefs _ _)
  referenced h := absurd h (hheld _ _)
  locked h := absurd h (hheld _ _)
  below h := by simp [Table.empty] at h
  injective h := by simp [Table.empty] at h

section

variable (hs : Sound t refs held)
include hs

theorem Sound.exclusive (hg : held g h) (hg' : held g' h') (hgroup : h.group = h'.group) :
    g = g' := by
  have hentry : some h.entry = some h'.entry := by
    rw [← hs.listed (hs.referenced hg), ← hs.listed (hs.referenced hg'), hgroup]
  have howner : some g = some g' := by
    rw [← hs.locked hg, ← hs.locked hg', Option.some.inj hentry]
  exact Option.some.inj howner

theorem Sound.entry_injective (hg : refs g h) (hg' : refs g' h') (hentry : h.entry = h'.entry) :
    h = h' := by
  have hgroup : h.group = h'.group := hs.injective (hs.listed hg) (hentry ▸ hs.listed hg')
  cases h
  simp_all

theorem Sound.mono (hrefs : ∀ g h, refs' g h → refs g h) (hheld : ∀ g h, held' g h → held g h)
    (hsub : ∀ g h, held' g h → refs' g h) :
    Sound t refs' held' where
  listed h := hs.listed (hrefs _ _ h)
  counted h := hs.counted (hrefs _ _ h)
  referenced h := hsub _ _ h
  locked h := hs.locked (hheld _ _ h)
  __ := hs

theorem Sound.reference (group : Int)
    (hrefs : ∀ g' h', refs' g' h' → refs g' h' ∨ g' = g ∧ h' = (t.reference group g).2)
    (hheld : ∀ g' h', held' g' h' → held g' h') (hsub : ∀ g' h', held' g' h' → refs' g' h') :
    Sound (t.reference group g).1 refs' held' := by
  cases hfound : t.locks group with
  | some n =>
    have hreference : t.reference group g =
        (t.modify n fun e => { e with refs := g :: e.refs }, ⟨group, n⟩) := by
      simp [Table.reference, hfound]
    rw [hreference] at hrefs ⊢
    have hrefs_mono : ∀ m g', g' ∈ (t.entry m).refs →
        g' ∈ ((t.modify n fun e => { e with refs := g :: e.refs }).entry m).refs := by
      intro m g' hmem
      rcases eq_or_ne m n with rfl | hm
      · simp [Table.modify, hmem]
      · simpa [Table.modify, hm] using hmem
    refine ⟨?_, ?_, fun hnew => hsub _ _ hnew, ?_, hs.below, hs.injective⟩
    · intro g' h' href
      rcases hrefs g' h' href with hold | ⟨rfl, rfl⟩
      · exact hs.listed hold
      · exact hfound
    · intro g' h' href
      rcases hrefs g' h' href with hold | ⟨rfl, rfl⟩
      · exact hrefs_mono _ _ (hs.counted hold)
      · simp [Table.modify]
    · intro g' h' hnew
      have howner := hs.locked (hheld g' h' hnew)
      by_cases hm : h'.entry = n
      · rw [hm] at howner
        simp [Table.modify, hm, howner]
      · simpa [Table.modify, hm] using howner
  | none =>
    have hreference : t.reference group g =
        ({ locks := update t.locks group (some t.fresh)
           entry := update t.entry t.fresh ⟨[g], none⟩
           fresh := t.fresh + 1 }, ⟨group, t.fresh⟩) := by
      simp [Table.reference, hfound]
    rw [hreference] at hrefs ⊢
    have hold_group : ∀ {g' h'}, refs g' h' → h'.group ≠ group := by
      intro g' h' href heq
      have hlisted := hs.listed href
      rw [heq, hfound] at hlisted
      cases hlisted
    have hold_entry : ∀ {g' h'}, refs g' h' → h'.entry ≠ t.fresh :=
      fun href => Nat.ne_of_lt (hs.below (hs.listed href))
    refine ⟨?_, ?_, fun hnew => hsub _ _ hnew, ?_, ?_, ?_⟩
    · intro g' h' href
      rcases hrefs g' h' href with hold | ⟨rfl, rfl⟩
      · simpa [hold_group hold] using hs.listed hold
      · simp
    · intro g' h' href
      rcases hrefs g' h' href with hold | ⟨rfl, rfl⟩
      · simpa [hold_entry hold] using hs.counted hold
      · simp
    · intro g' h' hnew
      have hold := hheld g' h' hnew
      simpa [hold_entry (hs.referenced hold)] using hs.locked hold
    · intro group' n hlisted
      rcases eq_or_ne group' group with rfl | hgroup
      · have heq : t.fresh = n := by simpa using hlisted
        simp [← heq]
      · have hbelow := hs.below (by simpa [hgroup] using hlisted)
        exact Nat.lt_succ_of_lt hbelow
    · intro group₁ group₂ n h₁ h₂
      have hnew : ∀ {group'}, update t.locks group (some t.fresh) group' = some n →
          group' = group ∧ n = t.fresh ∨ group' ≠ group ∧ t.locks group' = some n := by
        intro group' hlisted
        rcases eq_or_ne group' group with rfl | hgroup
        · exact .inl ⟨rfl, by simpa using hlisted.symm⟩
        · exact .inr ⟨hgroup, by simpa [hgroup] using hlisted⟩
      rcases hnew h₁ with ⟨rfl, rfl⟩ | ⟨_, hl₁⟩
      · rcases hnew h₂ with ⟨rfl, _⟩ | ⟨_, hl₂⟩
        · rfl
        · exact absurd (hs.below hl₂) (Nat.lt_irrefl _)
      · rcases hnew h₂ with ⟨rfl, rfl⟩ | ⟨_, hl₂⟩
        · exact absurd (hs.below hl₁) (Nat.lt_irrefl _)
        · exact hs.injective hl₁ hl₂

theorem Sound.setOwner {n : Nat} (hrefs : ∀ g' h', refs' g' h' → refs g' h')
    (hsub : ∀ g' h', held' g' h' → refs' g' h')
    (hheld : ∀ g' h', held' g' h' → h'.entry = n ∧ owner = some g' ∨ h'.entry ≠ n ∧ held g' h') :
    Sound (t.modify n fun e => { e with owner }) refs' held' := by
  have hcount : ∀ m, ((t.modify n fun e => { e with owner }).entry m).refs = (t.entry m).refs := by
    intro m
    rcases eq_or_ne m n with rfl | hm
    · simp [Table.modify]
    · simp [Table.modify, hm]
  refine ⟨fun hr => hs.listed (hrefs _ _ hr),
    fun hr => by simpa only [hcount] using hs.counted (hrefs _ _ hr), fun hr => hsub _ _ hr, ?_,
    hs.below, hs.injective⟩
  intro g' h' hnew
  rcases hheld g' h' hnew with ⟨hm, howner⟩ | ⟨hm, hold⟩
  · simp [Table.modify, hm, howner]
  · simpa [Table.modify, hm] using hs.locked hold

theorem Sound.tryLock {t' : Table} (hlock : t.tryLock h g = some t')
    (hrefs : ∀ g' h', refs' g' h' → refs g' h')
    (hheld : ∀ g' h', held' g' h' → held g' h' ∨ g' = g ∧ h' = h)
    (hsub : ∀ g' h', held' g' h' → refs' g' h') : Sound t' refs' held' := by
  simp only [Table.tryLock] at hlock
  split at hlock
  · cases hlock
  rename_i hfree
  cases hlock
  refine hs.setOwner hrefs hsub fun g' h' hnew => ?_
  rcases hheld g' h' hnew with hold | ⟨rfl, rfl⟩
  · refine .inr ⟨?_, hold⟩
    intro heq
    have howner := hs.locked hold
    rw [heq, hfree] at howner
    cases howner
  · exact .inl ⟨rfl, rfl⟩

theorem Sound.unlock (hg : held g h) (hrefs : ∀ g' h', refs' g' h' → refs g' h')
    (hheld : ∀ g' h', held' g' h' → held g' h' ∧ ¬ (g' = g ∧ h' = h))
    (hsub : ∀ g' h', held' g' h' → refs' g' h') : Sound (t.unlock h) refs' held' := by
  refine hs.setOwner hrefs hsub fun g' h' hnew => .inr ?_
  obtain ⟨hold, hne⟩ := hheld g' h' hnew
  refine ⟨?_, hold⟩
  intro heq
  have hsame : h' = h := hs.entry_injective (hs.referenced hold) (hs.referenced hg) heq
  subst hsame
  exact hne ⟨hs.exclusive hold hg rfl, rfl⟩

end

theorem Table.releaseRef_entry (t : Table) (h : Handle) (g : Nat) :
    (t.releaseRef h g).entry = update t.entry h.entry
      { t.entry h.entry with refs := (t.entry h.entry).refs.erase g } := by
  simp only [Table.releaseRef]
  split <;> rfl

theorem Table.releaseRef_fresh (t : Table) (h : Handle) (g : Nat) :
    (t.releaseRef h g).fresh = t.fresh := by
  simp only [Table.releaseRef]
  split <;> rfl

theorem Table.releaseRef_locks (t : Table) (h : Handle) (g : Nat) (group : Int) :
    (t.releaseRef h g).locks group = t.locks group ∨
      group = h.group ∧ (t.releaseRef h g).locks group = none ∧
        (t.entry h.entry).refs.erase g = [] ∧ t.locks h.group = some h.entry := by
  simp only [Table.releaseRef]
  split_ifs with hdrop
  · rcases eq_or_ne group h.group with rfl | hgroup
    · exact .inr ⟨rfl, by simp, hdrop⟩
    · exact .inl (by simp [hgroup])
  · exact .inl rfl

theorem Sound.releaseRef (hs : Sound t refs held) (hg : refs g h)
    (hrefs : ∀ g' h', refs' g' h' → refs g' h' ∧ ¬ (g' = g ∧ h' = h))
    (hheld : ∀ g' h', held' g' h' → held g' h') (hsub : ∀ g' h', held' g' h' → refs' g' h') :
    Sound (t.releaseRef h g) refs' held' := by
  have hlocks : ∀ {group n}, (t.releaseRef h g).locks group = some n → t.locks group = some n := by
    intro group n hlisted
    rcases t.releaseRef_locks h g group with heq | ⟨_, hnone, _⟩
    · rwa [← heq]
    · rw [hnone] at hlisted
      cases hlisted
  have hkept : ∀ {g'}, refs' g' h → g' ∈ (t.entry h.entry).refs.erase g := by
    intro g' hnew
    obtain ⟨hold, hne⟩ := hrefs g' h hnew
    have hother : g' ≠ g := fun heq => hne ⟨heq, rfl⟩
    exact (List.mem_erase_of_ne hother).mpr (hs.counted hold)
  refine ⟨?_, ?_, fun hnew => hsub _ _ hnew, ?_, ?_, ?_⟩
  · intro g' h' hnew
    have hlisted := hs.listed (hrefs g' h' hnew).1
    rcases t.releaseRef_locks h g h'.group with heq | ⟨hgroup, _, hempty, hentry⟩
    · rw [heq, hlisted]
    have hsame : h' = h := by
      apply hs.entry_injective (hrefs g' h' hnew).1 hg
      rw [hgroup, hentry] at hlisted
      exact (Option.some.inj hlisted).symm
    have hmem := hkept (hsame ▸ hnew)
    rw [hempty] at hmem
    exact absurd hmem List.not_mem_nil
  · intro g' h' hnew
    rw [Table.releaseRef_entry]
    by_cases hm : h'.entry = h.entry
    · have hsame : h' = h := hs.entry_injective (hrefs g' h' hnew).1 hg hm
      subst hsame
      simpa using hkept hnew
    · simpa [hm] using hs.counted (hrefs g' h' hnew).1
  · intro g' h' hnew
    have howner := hs.locked (hheld g' h' hnew)
    rw [Table.releaseRef_entry]
    by_cases hm : h'.entry = h.entry
    · simpa [hm] using howner
    · simpa [hm] using howner
  · intro group n hlisted
    rw [Table.releaseRef_fresh]
    exact hs.below (hlocks hlisted)
  · intro group group' n h₁ h₂
    exact hs.injective (hlocks h₁) (hlocks h₂)

end CubeCore.GroupLockTable
