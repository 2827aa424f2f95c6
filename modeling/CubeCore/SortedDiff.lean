import CubeCore.Checked
import Mathlib.Data.List.Sort
import Mathlib.Data.List.AList
import Mathlib.Data.List.Chain

namespace CubeCore.SortedDiff

open List AList

variable {α κ δ : Type} (key : α → κ) (less : κ → κ → Prop) [DecidableRel less]

def sortBy (xs : List α) : List α :=
  xs.insertionSort fun a b => ¬ less (key b) (key a)

def Increasing (xs : List α) : Prop :=
  xs.Pairwise fun a b => less (key a) (key b)

section Order

variable {key less} {xs ys : List α}

theorem sortBy_perm (xs : List α) : (sortBy key less xs).Perm xs := perm_insertionSort _ xs

variable [IsStrictTotalOrder κ less]

theorem sortBy_pairwise (xs : List α) :
    (sortBy key less xs).Pairwise fun a b => ¬ less (key b) (key a) := by
  have htotal : Std.Total fun a b : α => ¬ less (key b) (key a) :=
    ⟨fun a b => or_iff_not_imp_left.mpr fun h => asymm (not_not.mp h)⟩
  have htrans : IsTrans α fun a b => ¬ less (key b) (key a) := by
    refine ⟨fun a b c hab hbc hca => ?_⟩
    rcases trichotomous_of less (key a) (key b) with h | h | h
    · exact hbc (trans_of less hca h)
    · exact hbc (h ▸ hca)
    · exact hab h
  exact pairwise_insertionSort _ xs

theorem sortBy_eq_self (h : Increasing key less xs) : sortBy key less xs = xs :=
  List.Pairwise.insertionSort_eq (h.imp fun hab => asymm hab)

omit [DecidableRel less] in
theorem increasing_of_isChain (hsorted : xs.Pairwise fun a b => ¬ less (key b) (key a))
    (hne : xs.IsChain fun a b => key a ≠ key b) : Increasing key less xs := by
  have htrans : IsTrans α fun a b => less (key a) (key b) :=
    ⟨fun _ _ _ hab hbc => trans_of less hab hbc⟩
  refine isChain_iff_pairwise.mp ?_
  induction xs with
  | nil => exact .nil
  | cons x xs ih =>
    cases xs with
    | nil => exact .singleton _
    | cons y =>
      obtain ⟨hxy, hrest⟩ := isChain_cons_cons.mp hne
      have hle : ¬ less (key y) (key x) := rel_of_pairwise_cons hsorted (by simp)
      refine isChain_cons_cons.mpr ⟨?_, ih hsorted.of_cons hrest⟩
      rcases trichotomous_of less (key x) (key y) with h | h | h
      · exact h
      · exact absurd h hxy
      · exact absurd h hle

omit [DecidableRel less] in
theorem Increasing.key_inj (h : Increasing key less xs) (ha : a ∈ xs) (hb : b ∈ xs)
    (heq : key a = key b) : a = b := by
  induction xs with
  | nil => cases ha
  | cons x xs ih =>
    have hirrefl : ∀ y ∈ xs, key x ≠ key y := fun y hy => ne_of_irrefl (rel_of_pairwise_cons h hy)
    rcases mem_cons.mp ha with rfl | ha' <;> rcases mem_cons.mp hb with rfl | hb'
    · rfl
    · exact absurd heq (hirrefl b hb')
    · exact absurd heq.symm (hirrefl a ha')
    · exact ih h.of_cons ha' hb'

omit [DecidableRel less] in
theorem Increasing.nodup_keys (h : Increasing key less xs) : (xs.map key).Nodup := by
  refine pairwise_map.mpr (List.Pairwise.imp ?_ h)
  exact fun hab => ne_of_irrefl hab

end Order

section Maps

variable [DecidableEq κ]

def mapOf (xs : List α) : AList fun _ : κ => α :=
  xs.foldl (fun m x => m.insert (key x) x) ∅

def values (m : AList fun _ : κ => α) : List α :=
  m.entries.map Sigma.snd

def Keyed (m : AList fun _ : κ => α) : Prop :=
  ∀ k v, m.lookup k = some v → key v = k

variable {key} {m : AList fun _ : κ => α} {k : κ} {v : α}

theorem Keyed.empty : Keyed key (∅ : AList fun _ : κ => α) := by
  intro k v h
  simp at h

theorem Keyed.insert (h : Keyed key m) (hv : key v = k) : Keyed key (m.insert k v) := by
  intro k' v' hlookup
  rcases eq_or_ne k' k with rfl | hk
  · rw [lookup_insert, Option.some.injEq] at hlookup
    exact hlookup ▸ hv
  · rw [lookup_insert_ne hk] at hlookup
    exact h k' v' hlookup

theorem Keyed.erase (h : Keyed key m) : Keyed key (m.erase k) := by
  intro k' v' hlookup
  rcases eq_or_ne k' k with rfl | hk
  · simp at hlookup
  · rw [lookup_erase_ne hk] at hlookup
    exact h k' v' hlookup

theorem keyed_mapOf (xs : List α) : Keyed key (mapOf key xs) := by
  have hfold : ∀ m : AList fun _ : κ => α, Keyed key m →
      Keyed key (xs.foldl (fun m x => m.insert (key x) x) m) := by
    induction xs with
    | nil => exact fun _ => id
    | cons x xs ih => exact fun m h => ih _ (h.insert rfl)
  exact hfold ∅ .empty

theorem lookup_foldl_insert (xs : List α) (hnodup : (xs.map key).Nodup) (m : AList fun _ : κ => α) :
    (∀ x ∈ xs, (xs.foldl (fun m x => m.insert (key x) x) m).lookup (key x) = some x) ∧
      ∀ k, (∀ x ∈ xs, key x ≠ k) →
        (xs.foldl (fun m x => m.insert (key x) x) m).lookup k = m.lookup k := by
  induction xs generalizing m with
  | nil => exact ⟨nofun, fun _ _ => rfl⟩
  | cons x xs ih =>
    obtain ⟨hx, hxs⟩ := nodup_cons.mp hnodup
    obtain ⟨hin, hout⟩ := ih hxs (m.insert (key x) x)
    constructor
    · intro y hy
      rcases mem_cons.mp hy with rfl | hy
      · refine (hout _ fun z hz hzy => hx ?_).trans (lookup_insert m)
        exact hzy ▸ mem_map_of_mem hz
      · exact hin y hy
    · intro k hk
      have hxk : k ≠ key x := (hk x (by simp)).symm
      exact (hout k fun y hy => hk y (by simp [hy])).trans (lookup_insert_ne hxk)

theorem lookup_mapOf (hnodup : (xs.map key).Nodup) (hx : x ∈ xs) :
    (mapOf key xs).lookup (key x) = some x :=
  (lookup_foldl_insert xs hnodup ∅).1 x hx

theorem lookup_mapOf_eq_none (hnodup : (xs.map key).Nodup) (hk : ∀ x ∈ xs, key x ≠ k) :
    (mapOf key xs).lookup k = none :=
  (lookup_foldl_insert xs hnodup ∅).2 k hk

theorem mem_values (h : Keyed key m) : v ∈ values m ↔ m.lookup (key v) = some v := by
  simp only [values, mem_map]
  constructor
  · rintro ⟨⟨k, w⟩, hmem, rfl⟩
    have hlookup : m.lookup k = some w := mem_lookup_iff.mpr hmem
    rwa [h k w hlookup]
  · intro hlookup
    exact ⟨⟨key v, v⟩, mem_lookup_iff.mp hlookup, rfl⟩

theorem map_key_values (h : Keyed key m) : (values m).map key = m.keys := by
  rw [values, map_map]
  refine map_congr_left fun ⟨k, w⟩ hmem => ?_
  exact h k w (mem_lookup_iff.mpr hmem)

/-- The map has the elements of a list, up to the normalisation `norm`, and nothing else. -/
structure Has (key : α → κ) (norm : α → α) (m : AList fun _ : κ => α) (ys : List α) :
    Prop where
  there : ∀ y ∈ ys, ∃ v, m.lookup (key y) = some v ∧ norm v = y
  only : ∀ k, (∀ y ∈ ys, key y ≠ k) → m.lookup k = none

variable {less : κ → κ → Prop} [DecidableRel less] [IsStrictTotalOrder κ less] {norm : α → α}
  {ys : List α}

omit [DecidableRel less] in
theorem Has.perm (h : Has key norm m ys) (hkeyed : Keyed key m)
    (hnorm : ∀ v, key (norm v) = key v) (hys : Increasing key less ys) :
    ((values m).map norm).Perm ys := by
  have hkeys : ((values m).map norm).map key = m.keys := by
    rw [← map_key_values hkeyed, map_map]
    exact map_congr_left fun v _ => hnorm v
  have hnodup : ((values m).map norm).Nodup := by
    refine List.Nodup.of_map key ?_
    rw [hkeys]
    exact m.nodupKeys
  refine (perm_ext_iff_of_nodup hnodup (List.Nodup.of_map key hys.nodup_keys)).mpr ?_
  intro y
  simp only [mem_map, mem_values hkeyed]
  constructor
  · rintro ⟨v, hlookup, rfl⟩
    by_contra hnot
    have hmem : ∃ y ∈ ys, key y = key v := by
      by_contra hnone
      push Not at hnone
      rw [h.only _ hnone] at hlookup
      cases hlookup
    obtain ⟨y, hy, hkey⟩ := hmem
    obtain ⟨w, hw, rfl⟩ := h.there y hy
    rw [hkey, hlookup, Option.some.injEq] at hw
    exact hnot (hw ▸ hy)
  · intro hy
    obtain ⟨v, hlookup, rfl⟩ := h.there y hy
    refine ⟨v, ?_, rfl⟩
    rwa [hnorm] at hlookup

theorem Has.sortBy_values (h : Has key norm m ys) (hkeyed : Keyed key m)
    (hnorm : ∀ v, key (norm v) = key v) (hys : Increasing key less ys) :
    (sortBy key less (values m)).map norm = ys := by
  have hperm : ((sortBy key less (values m)).map norm).Perm ys :=
    ((sortBy_perm _).map norm).trans (h.perm hkeyed hnorm hys)
  refine @List.Perm.eq_of_pairwise _ (fun a b => ¬ less (key b) (key a)) _ _ ?_ ?_ ?_ hperm
  · intro a b ha hb hab hba
    refine hys.key_inj (hperm.mem_iff.mp ha) hb ?_
    exact (trichotomous_of less (key a) (key b)).resolve_left hba |>.resolve_right hab
  · refine pairwise_map.mpr ((sortBy_pairwise (values m)).imp fun hab => ?_)
    rwa [hnorm, hnorm]
  · exact hys.imp fun hab => asymm hab

end Maps

section Diff

variable (put drop : α → δ) (change : α → α → Option δ)

/-- One element of the base list against the current list; `rest` walks on behind it. -/
def diffFrom (x : α) (rest : List α → List δ) : List α → List δ
  | [] => drop x :: rest []
  | y :: ys =>
    if less (key x) (key y) then drop x :: rest (y :: ys)
    else if less (key y) (key x) then put y :: diffFrom x rest ys
    else (change x y).toList ++ rest ys

/-- An element of the base alone is dropped, one of the current list alone is put, and two with one
key are compared. -/
def diff : List α → List α → List δ
  | [] => fun ys => ys.map put
  | x :: xs => diffFrom key less put drop change x (diff xs)

variable {key less put drop change}

theorem diff_eq_nil_iff [IsStrictTotalOrder κ less]
    (hchange : ∀ x ∈ xs, ∀ y ∈ ys, key x = key y → (change x y = none ↔ x = y)) :
    diff key less put drop change xs ys = [] ↔ xs = ys := by
  induction xs generalizing ys with
  | nil => simp [diff, eq_comm]
  | cons x xs ih =>
    cases ys with
    | nil => simp [diff, diffFrom]
    | cons y =>
      simp only [diff, diffFrom]
      split_ifs with hxy hyx
      · have hne : x ≠ y := fun h => irrefl_of less _ (h ▸ hxy)
        simp [hne]
      · have hne : x ≠ y := fun h => irrefl_of less _ (h ▸ hyx)
        simp [hne]
      · have hkey : key x = key y :=
          ((trichotomous_of less (key x) (key y)).resolve_left hxy).resolve_right hyx
        have hrest := ih fun x' hx y' hy =>
          hchange x' (mem_cons_of_mem x hx) y' (mem_cons_of_mem y hy)
        simp only [append_eq_nil_iff, Option.toList_eq_nil_iff, cons.injEq,
          hchange x mem_cons_self y mem_cons_self hkey, hrest]

/-- The changes of a walk along two lists without equal keys. -/
inductive Walk (key : α → κ) (put drop : α → δ) (change : α → α → Option δ) :
    List α → List α → List δ → Prop
  | nil : Walk key put drop change [] [] []
  | put (hxs : ∀ x ∈ xs, key x ≠ key y)
      (hys : ∀ y' ∈ ys, key y' ≠ key y) (h : Walk key put drop change xs ys ds) :
      Walk key put drop change xs (y :: ys) (put y :: ds)
  | drop (hxs : ∀ x' ∈ xs, key x' ≠ key x)
      (hys : ∀ y ∈ ys, key y ≠ key x) (h : Walk key put drop change xs ys ds) :
      Walk key put drop change (x :: xs) ys (drop x :: ds)
  | both (hkey : key x = key y) (hxs : ∀ x' ∈ xs, key x' ≠ key y) (hys : ∀ y' ∈ ys, key y' ≠ key y)
      (h : Walk key put drop change xs ys ds) :
      Walk key put drop change (x :: xs) (y :: ys) ((change x y).toList ++ ds)

theorem walk_diff [IsStrictTotalOrder κ less] (hxs : Increasing key less xs)
    (hys : Increasing key less ys) :
    Walk key put drop change xs ys (diff key less put drop change xs ys) := by
  have hbehind {z w : α} {zs : List α} (hz : Increasing key less (z :: zs))
      (hw : less (key w) (key z) ∨ key w = key z) : ∀ z' ∈ zs, key z' ≠ key w := by
    intro z' hz'
    have hlt := rel_of_pairwise_cons hz hz'
    exact hw.elim (fun hw => ne_of_irrefl' (trans_of less hw hlt)) fun hw => hw ▸ ne_of_irrefl' hlt
  -- the walk is by recursion on the base, and for one base element on the current list
  induction xs generalizing ys with
  | nil =>
    induction ys with
    | nil => exact .nil
    | cons y ys ih => exact .put nofun (hbehind hys (.inr rfl)) (ih hys.of_cons)
  | cons x xs ihx =>
    induction ys with
    | nil => exact .drop (hbehind hxs (.inr rfl)) nofun (ihx hxs.of_cons .nil)
    | cons y ys ihy =>
      simp only [diff, diffFrom]
      split_ifs with hlt hgt
      · refine .drop (hbehind hxs (.inr rfl)) ?_ (ihx hxs.of_cons hys)
        exact forall_mem_cons.mpr ⟨ne_of_irrefl' hlt, hbehind hys (.inl hlt)⟩
      · refine .put ?_ (hbehind hys (.inr rfl)) (ihy hys.of_cons)
        exact forall_mem_cons.mpr ⟨ne_of_irrefl' hgt, hbehind hxs (.inl hgt)⟩
      · have hkey : key x = key y :=
          ((trichotomous_of less (key x) (key y)).resolve_left hlt).resolve_right hgt
        exact .both hkey (hbehind hxs (.inr hkey.symm)) (hbehind hys (.inr rfl))
          (ihx hxs.of_cons hys.of_cons)

section Apply

variable [DecidableEq κ]

def write (m : AList fun _ : κ => α) (k : κ) : Option α → AList fun _ : κ => α
  | some v => m.insert k v
  | none => m.erase k

@[simp] theorem lookup_write (m : AList fun _ : κ => α) (k : κ) (o : Option α) :
    (write m k o).lookup k = o := by
  cases o <;> simp [write]

theorem lookup_write_ne {k k' : κ} (h : k' ≠ k) :
    (write m k o).lookup k' = m.lookup k' := by
  cases o with
  | none => exact lookup_erase_ne h
  | some => exact lookup_insert_ne h

variable (site : δ → κ) (Effect : δ → Option α → Option α → Prop)

/-- A change reads and writes the map at one key, its site. -/
inductive Applied : List δ → (AList fun _ : κ => α) → (AList fun _ : κ => α) → Prop
  | nil : Applied [] m m
  | cons {d : δ} {ds : List δ} {m m' : AList fun _ : κ => α} {o : Option α} :
      Effect d (m.lookup (site d)) o → Applied ds (write m (site d) o) m' →
        Applied (d :: ds) m m'

variable {site Effect} in
theorem applied_of_foldlM {ε : Type} {ds : List δ} {m m' : AList fun _ : κ => α}
    {step : (AList fun _ : κ => α) → δ → Except ε (AList fun _ : κ => α)}
    (hstep : ∀ m d m', step m d = .ok m' →
      ∃ o, Effect d (m.lookup (site d)) o ∧ m' = write m (site d) o)
    (h : ds.foldlM step m = .ok m') : Applied site Effect ds m m' := by
  induction ds generalizing m with
  | nil =>
    obtain rfl := Except.ok.inj h
    exact .nil
  | cons d ds ih =>
    rw [foldlM_cons, Checked.bind_eq_ok] at h
    obtain ⟨m₁, hd, hrest⟩ := h
    obtain ⟨o, heffect, rfl⟩ := hstep m d m₁ hd
    exact .cons heffect (ih hrest)

variable {site Effect} in
theorem Applied.keyed
    (hkey : ∀ d o v, (∀ w, o = some w → key w = site d) → Effect d o (some v) → key v = site d)
    (hm : Keyed key m) (h : Applied site Effect ds m m') : Keyed key m' := by
  induction h with
  | nil => exact hm
  | @cons d ds m m' o heffect _ ih =>
    apply ih
    cases o with
    | none => exact hm.erase
    | some v => exact hm.insert (hkey d _ v (fun w hw => hm _ w hw) heffect)

/-- What the changes of a walk do where they are made, for elements that are `Good`. -/
structure Sound (key : α → κ) (put drop : α → δ) (change : α → α → Option δ)
    (norm : α → α) (Good : α → Prop) : Prop where
  puts : ∀ y, Good y → site (put y) = key y ∧
    ∀ o o', Effect (put y) o o' → ∃ v, o' = some v ∧ norm v = y
  drops : ∀ x, site (drop x) = key x ∧ ∀ o o', Effect (drop x) o o' → o' = none
  changes : ∀ x y d, Good x → Good y → key x = key y → change x y = some d →
    site d = key y ∧ ∀ o', Effect d (some x) o' → ∃ v, o' = some v ∧ norm v = y
  same : ∀ x y, Good x → Good y → key x = key y → change x y = none → norm x = y

/-- The map `m'` has `ys` where `m` had `xs`. -/
structure Turned (key : α → κ) (norm : α → α) (xs ys : List α)
    (m m' : AList fun _ : κ => α) : Prop where
  there : ∀ y ∈ ys, ∃ v, m'.lookup (key y) = some v ∧ norm v = y
  gone : ∀ x ∈ xs, (∀ y ∈ ys, key y ≠ key x) → m'.lookup (key x) = none
  kept : ∀ k, (∀ y ∈ ys, key y ≠ k) → (∀ x ∈ xs, key x ≠ k) → m'.lookup k = m.lookup k

variable {site Effect} {norm : α → α} {Good : α → Prop} {xs ys : List α}
  {m m₁ m' : AList fun _ : κ => α}

theorem Turned.added (h : Turned key norm xs ys m₁ m')
    (hframe : ∀ k, k ≠ key y → m₁.lookup k = m.lookup k) (hy : m₁.lookup (key y) = some v)
    (hv : norm v = y) (hxs : ∀ x ∈ xs, key x ≠ key y) (hys : ∀ y' ∈ ys, key y' ≠ key y) :
    Turned key norm xs (y :: ys) m m' where
  there := by
    rintro y' (_ | ⟨_, hy'⟩)
    · exact ⟨v, (h.kept _ hys hxs).trans hy, hv⟩
    · exact h.there y' hy'
  gone x hx hnot := h.gone x hx fun y' hy' => hnot y' (mem_cons_of_mem y hy')
  kept k hk hxk :=
    (h.kept k (fun y' hy' => hk y' (mem_cons_of_mem y hy')) hxk).trans
      (hframe k (hk y mem_cons_self).symm)

theorem Turned.removed (h : Turned key norm xs ys m₁ m')
    (hframe : ∀ k, k ≠ key x → m₁.lookup k = m.lookup k) (hx : m₁.lookup (key x) = none)
    (hxs : ∀ x' ∈ xs, key x' ≠ key x) (hys : ∀ y ∈ ys, key y ≠ key x) :
    Turned key norm (x :: xs) ys m m' where
  there := h.there
  gone := by
    rintro x' (_ | ⟨_, hx'⟩) hnot
    · exact (h.kept _ hys hxs).trans hx
    · exact h.gone x' hx' hnot
  kept k hk hxk :=
    (h.kept k hk fun x' hx' => hxk x' (mem_cons_of_mem x hx')).trans
      (hframe k (hxk x mem_cons_self).symm)

theorem Turned.replaced (h : Turned key norm xs ys m m') (hx : ∃ y ∈ ys, key y = key x) :
    Turned key norm (x :: xs) ys m m' where
  there := h.there
  gone := by
    rintro x' (_ | ⟨_, hx'⟩) hnot
    · obtain ⟨y, hy, heq⟩ := hx
      exact absurd heq (hnot y hy)
    · exact h.gone x' hx' hnot
  kept k hk hxk := h.kept k hk fun x' hx' => hxk x' (mem_cons_of_mem x hx')

theorem turned_of_applied {ds : List δ} (hsound : Sound site Effect key put drop change norm Good)
    (hwalk : Walk key put drop change xs ys ds) (hgoodx : ∀ x ∈ xs, Good x)
    (hgoody : ∀ y ∈ ys, Good y) (hbase : ∀ x ∈ xs, m.lookup (key x) = some x)
    (h : Applied site Effect ds m m') : Turned key norm xs ys m m' := by
  induction hwalk generalizing m with
  | nil =>
    cases h
    exact ⟨nofun, nofun, fun _ _ _ => rfl⟩
  | put hxs hys _ ih =>
    rw [forall_mem_cons] at hgoody
    obtain ⟨hsite, heffect⟩ := hsound.puts _ hgoody.1
    obtain _ | ⟨hd, hrest⟩ := h
    obtain ⟨v, rfl, hv⟩ := heffect _ _ hd
    rw [hsite] at hrest
    have hturned := ih hgoodx hgoody.2
      (fun x hx => (lookup_write_ne (hxs x hx)).trans (hbase x hx)) hrest
    exact hturned.added (fun k hk => lookup_write_ne hk) (lookup_write _ _ _) hv hxs hys
  | drop hxs hys _ ih =>
    rw [forall_mem_cons] at hgoodx hbase
    obtain ⟨hsite, heffect⟩ := hsound.drops _
    obtain _ | ⟨hd, hrest⟩ := h
    obtain rfl := heffect _ _ hd
    rw [hsite] at hrest
    have hturned := ih hgoodx.2 hgoody
      (fun x hx => (lookup_write_ne (hxs x hx)).trans (hbase.2 x hx)) hrest
    exact hturned.removed (fun k hk => lookup_write_ne hk) (lookup_write _ _ _) hxs hys
  | @both x y _ _ _ hkey hxs hys _ ih =>
    refine Turned.replaced ?_ ⟨y, mem_cons_self, hkey.symm⟩
    rw [forall_mem_cons] at hgoodx hgoody hbase
    cases hchange : change x y with
    | none =>
      simp only [hchange, Option.toList_none, nil_append] at h
      exact (ih hgoodx.2 hgoody.2 hbase.2 h).added (fun _ _ => rfl) (hkey ▸ hbase.1)
        (hsound.same x y hgoodx.1 hgoody.1 hkey hchange) hxs hys
    | some d =>
      simp only [hchange, Option.toList_some, singleton_append] at h
      obtain ⟨hsite, heffect⟩ := hsound.changes x y d hgoodx.1 hgoody.1 hkey hchange
      obtain _ | ⟨hd, hrest⟩ := h
      rw [hsite, ← hkey, hbase.1] at hd
      obtain ⟨v, rfl, hv⟩ := heffect _ hd
      rw [hsite] at hrest
      have hturned := ih hgoodx.2 hgoody.2
        (fun x hx => (lookup_write_ne (hxs x hx)).trans (hbase.2 x hx)) hrest
      exact hturned.added (fun k hk => lookup_write_ne hk) (lookup_write _ _ _) hv hxs hys

theorem Turned.has (h : Turned key norm xs ys m m')
    (honly : ∀ k, (∀ x ∈ xs, key x ≠ k) → m.lookup k = none) : Has key norm m' ys where
  there := h.there
  only k hk := by
    by_cases hx : ∃ x ∈ xs, key x = k
    · obtain ⟨x, hx, rfl⟩ := hx
      exact h.gone x hx hk
    · push Not at hx
      exact (h.kept k hk hx).trans (honly k hx)

end Apply

end Diff

end CubeCore.SortedDiff
