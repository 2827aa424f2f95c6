import CubeCore.FlusherSystem
import Mathlib.Data.List.DropRight

namespace CubeCore.PatchMerge

open SaveItems BatchDedup VersionStore FlusherSystem List AList Option

variable {V : Type}

theorem lookup_foldl_erase (keys : List String) (m : AList fun _ : String => V) (k : String) :
    (keys.foldl (fun m k => m.erase k) m).lookup k = if k ∈ keys then none else m.lookup k := by
  induction keys generalizing m with
  | nil => simp
  | cons key keys ih =>
    rw [foldl_cons, ih]
    rcases eq_or_ne k key with rfl | hne
    · simp
    · simp [hne]

theorem foldl_removeString (keys items : List String) :
    keys.foldl PersistPatch.removeString items = items.filter (· ∉ keys) := by
  induction keys generalizing items with
  | nil => simp
  | cons key keys ih =>
    rw [foldl_cons, ih, PersistPatch.removeString, List.filter_filter]
    congr 1
    funext item
    simp [Bool.and_comm]

theorem mem_keys_iff {m : AList fun _ : String => V} {k : String} :
    k ∈ m.keys ↔ m.lookup k ≠ none := by
  rw [← AList.mem_keys, ← lookup_isSome, isSome_iff_ne_none]

variable {p q : PersistPatch V} {path : String}

theorem mem_merge_unset :
    path ∈ (p.merge q).unset ↔ (path ∈ p.unset ∨ path ∈ q.unset) ∧ q.set.lookup path = none := by
  simp only [PersistPatch.merge, foldl_removeString, mem_filter, mem_append, decide_eq_true_eq,
    mem_keys_iff, not_not]

theorem lookup_merge_set (p q : PersistPatch V) (path : String) :
    (p.merge q).set.lookup path = (q.set.lookup path).or
      (if path ∈ q.unset then none else p.set.lookup path) := by
  simp only [PersistPatch.merge]
  by_cases hmem : path ∈ q.set
  · rw [lookup_union_left hmem]
    obtain ⟨v, hv⟩ := isSome_iff_exists.mp (lookup_isSome.mpr hmem)
    rw [hv, some_or]
  · rw [lookup_union_right hmem, lookup_foldl_erase, lookup_eq_none.mpr hmem, none_or]

theorem applyPatch_merge (p q : PersistPatch V) (doc : Doc V) :
    applyPatch (p.merge q) doc = applyPatch q (applyPatch p doc) := by
  funext field
  simp only [applyPatch, lookup_merge_set, mem_merge_unset]
  cases hq : q.set.lookup field with
  | some => simp
  | none =>
    by_cases hqu : field ∈ q.unset
    · simp [hqu]
    · simp only [hqu, if_false, or_false, and_true, none_or]

/-- What a field holds, or a key of the map in it. `MapPatchPath` joins the two with a dot. -/
abbrev NestedDoc (V : Type) := String → Option String → Option V

/-- `contentOf` is what a value puts in a field when it is written as a whole. -/
def applyPaths (contentOf : V → Option String → Option V) (p : PersistPatch V)
    (doc : NestedDoc V) : NestedDoc V := fun field key =>
  match p.set.lookup field, key with
  | some value, _ => contentOf value key
  | none, none => if field ∈ p.unset then none else doc field none
  | none, some k =>
    match p.set.lookup (field ++ "." ++ k) with
    | some value => some value
    | none => if field ∈ p.unset ∨ field ++ "." ++ k ∈ p.unset then none else doc field (some k)

def HasPath (p : PersistPatch V) (path : String) : Prop :=
  p.set.lookup path ≠ none ∨ path ∈ p.unset

/-- No path of `p` leads into what a path of `q` replaces. -/
def Clear (p q : PersistPatch V) : Prop :=
  ∀ field key, HasPath q field → ¬ HasPath p (field ++ "." ++ key)

/-- No path of the patch is equal to another one or a prefix of it. -/
structure WellFormedPatch (p : PersistPatch V) : Prop where
  disjoint : ∀ path, p.set.lookup path ≠ none → path ∉ p.unset
  nodup : p.unset.Nodup
  clear : Clear p p

theorem hasPath_merge : HasPath (p.merge q) path ↔ HasPath p path ∨ HasPath q path := by
  simp only [HasPath, lookup_merge_set, mem_merge_unset]
  cases hq : q.set.lookup path with
  | some => simp
  | none =>
    by_cases hunset : path ∈ q.unset
    · simp [hunset]
    · simp [hunset]

theorem clear_merge_iff (hp : WellFormedPatch p) (hq : WellFormedPatch q) :
    Clear (p.merge q) (p.merge q) ↔ Clear p q ∧ Clear q p := by
  constructor
  · intro h
    refine ⟨fun field key hfield hkey => ?_, fun field key hfield hkey => ?_⟩
    · exact h field key (hasPath_merge.mpr (.inr hfield)) (hasPath_merge.mpr (.inl hkey))
    · exact h field key (hasPath_merge.mpr (.inl hfield)) (hasPath_merge.mpr (.inr hkey))
  · rintro ⟨hpq, hqp⟩ field key hfield hkey
    rcases hasPath_merge.mp hfield with hfield | hfield <;>
      rcases hasPath_merge.mp hkey with hkey | hkey
    · exact hp.clear field key hfield hkey
    · exact hqp field key hfield hkey
    · exact hpq field key hfield hkey
    · exact hq.clear field key hfield hkey

theorem nodup_merge_unset_iff (hp : WellFormedPatch p) (hq : WellFormedPatch q) :
    (p.merge q).unset.Nodup ↔ p.unset.Disjoint q.unset := by
  have hkeep : ∀ path ∈ q.unset, decide (path ∉ q.set.keys) = true := by
    intro path hunset
    rw [decide_eq_true_eq, mem_keys_iff]
    exact fun hset => hq.disjoint path hset hunset
  simp only [PersistPatch.merge, foldl_removeString, filter_append, filter_eq_self.mpr hkeep,
    nodup_append', hp.nodup.filter, hq.nodup, true_and]
  constructor
  · intro h path hunset hunset'
    exact h (mem_filter.mpr ⟨hunset, hkeep path hunset'⟩) hunset'
  · intro h path hunset hunset'
    exact h (mem_of_mem_filter hunset) hunset'

theorem wellFormedPatch_merge_iff (hp : WellFormedPatch p) (hq : WellFormedPatch q) :
    WellFormedPatch (p.merge q) ↔ Clear p q ∧ Clear q p ∧ p.unset.Disjoint q.unset := by
  rw [← and_assoc, ← clear_merge_iff hp hq, ← nodup_merge_unset_iff hp hq]
  constructor
  · exact fun h => ⟨h.clear, h.nodup⟩
  · rintro ⟨hclear, hnodup⟩
    refine ⟨fun path hset hunset => ?_, hnodup, hclear⟩
    obtain ⟨hunset, hnone⟩ := mem_merge_unset.mp hunset
    rw [lookup_merge_set, hnone] at hset
    split at hset
    · exact hset rfl
    · exact hp.disjoint path hset (hunset.resolve_right ‹_›)

theorem applyPaths_merge (contentOf : V → Option String → Option V) (hpq : Clear p q)
    (hqp : Clear q p) (doc : NestedDoc V) :
    applyPaths contentOf (p.merge q) doc = applyPaths contentOf q (applyPaths contentOf p doc) := by
  funext field key
  simp only [applyPaths, lookup_merge_set, mem_merge_unset]
  cases hq : q.set.lookup field with
  | some => rfl
  | none =>
    by_cases hremoved : field ∈ q.unset
    · -- the second patch removes the field, so the first one has no path into it
      cases key with
      | none => simp [hremoved]
      | some k =>
        have hnone : p.set.lookup (field ++ "." ++ k) = none :=
          not_not.mp fun hset => hpq field k (.inr hremoved) (.inl hset)
        cases hk : q.set.lookup (field ++ "." ++ k) <;> simp [hremoved, hnone]
    cases hp : p.set.lookup field with
    | some =>
      -- the first patch writes the field, so the second one has no path into it
      have hinto (k : String) := hqp field k (.inl (by simp [hp]))
      simp only [HasPath, not_or, not_not] at hinto
      cases key <;> simp [hremoved, hinto]
    | none =>
      cases key with
      | none => simp [hremoved]
      | some k =>
        cases hk : q.set.lookup (field ++ "." ++ k) with
        | some => simp [hremoved, hk]
        | none => by_cases hunset : field ++ "." ++ k ∈ q.unset <;> simp [hremoved, hk, hunset]

/-- Merging composes exactly when neither patch has a path into what the other replaces and no path
is unset by both. -/
theorem merge_composes_iff (contentOf : V → Option String → Option V) (hp : WellFormedPatch p)
    (hq : WellFormedPatch q) :
    (WellFormedPatch (p.merge q) ∧
      (∀ doc, applyPaths contentOf (p.merge q) doc =
        applyPaths contentOf q (applyPaths contentOf p doc)) ∧
      (p.merge q).fullData = if q.fullData = [] then p.fullData else q.fullData) ↔
    Clear p q ∧ Clear q p ∧ p.unset.Disjoint q.unset := by
  rw [← wellFormedPatch_merge_iff hp hq]
  constructor
  · exact fun h => h.1
  · intro h
    obtain ⟨hpq, hqp, -⟩ := (wellFormedPatch_merge_iff hp hq).mp h
    exact ⟨h, applyPaths_merge contentOf hpq hqp, rfl⟩

/-- Writes one path and removes others. -/
def setUnset (path : String) (value : Nat) (removed : List String) : PersistPatch Nat :=
  ⟨AList.insert path value ∅, removed, []⟩

theorem length_of_hasPath {path path' : String} {value : Nat} {removed : List String}
    (hremoved : ∀ key ∈ removed, key.length = path.length)
    (h : HasPath (setUnset path value removed) path') : path'.length = path.length := by
  rcases h with hset | hunset
  · rcases eq_or_ne path' path with rfl | hne
    · rfl
    · exact absurd ((lookup_insert_ne hne).trans (lookup_empty _)) hset
  · exact hremoved path' hunset

theorem clear_of_length {n : Nat} {p q : PersistPatch V}
    (hp : ∀ path, HasPath p path → path.length = n)
    (hq : ∀ path, HasPath q path → path.length = n) : Clear p q := by
  intro field key hfield hkey
  have hlength := (hp _ hkey).trans (hq _ hfield).symm
  simp only [String.length_append] at hlength
  have hdot : ".".length = 1 := rfl
  omega

theorem wellFormedPatch_setUnset {path : String} {removed : List String}
    (hremoved : ∀ key ∈ removed, key.length = path.length) (hnodup : removed.Nodup)
    (hpath : path ∉ removed) (value : Nat) : WellFormedPatch (setUnset path value removed) := by
  refine ⟨fun path' hset => ?_, hnodup, ?_⟩
  · rcases eq_or_ne path' path with rfl | hne
    · exact hpath
    · exact absurd ((lookup_insert_ne hne).trans (lookup_empty _)) hset
  · exact clear_of_length (fun _ => length_of_hasPath hremoved) fun _ => length_of_hasPath hremoved

theorem merge_composes_keys :
    WellFormedPatch ((setUnset "bag.1" 5 ["bag.2"]).merge (setUnset "bag.2" 6 ["bag.1"])) ∧
      ∀ doc, applyPaths (fun v _ => some v)
          ((setUnset "bag.1" 5 ["bag.2"]).merge (setUnset "bag.2" 6 ["bag.1"])) doc =
        applyPaths (fun v _ => some v) (setUnset "bag.2" 6 ["bag.1"])
          (applyPaths (fun v _ => some v) (setUnset "bag.1" 5 ["bag.2"]) doc) := by
  have hlengths : "bag.1".length = 5 ∧ "bag.2".length = 5 := by decide +kernel
  have hlength (path key : String) (value : Nat) (hpath : path.length = 5) (hkey : key.length = 5)
      (path' : String) (h : HasPath (setUnset path value [key]) path') : path'.length = 5 :=
    hpath ▸ length_of_hasPath (by simp [hpath, hkey]) h
  have hp := hlength "bag.1" "bag.2" 5 hlengths.1 hlengths.2
  have hq := hlength "bag.2" "bag.1" 6 hlengths.2 hlengths.1
  have hmerge := (merge_composes_iff (fun v _ => some v)
    (wellFormedPatch_setUnset (by simp [hlengths]) (nodup_singleton _) (by decide) 5)
    (wellFormedPatch_setUnset (by simp [hlengths]) (nodup_singleton _) (by decide) 6)).mpr
      ⟨clear_of_length hp hq, clear_of_length hq hp, by simp [setUnset]⟩
  exact ⟨hmerge.1, hmerge.2.1⟩

/-- A key of a map is set and then the map as a whole: the merged patch has both paths. -/
theorem merge_not_wellFormed :
    WellFormedPatch (setUnset "bag.1" 5 []) ∧ WellFormedPatch (setUnset "bag" 6 []) ∧
      ¬ WellFormedPatch ((setUnset "bag.1" 5 []).merge (setUnset "bag" 6 [])) := by
  have hwf (path : String) (value : Nat) : WellFormedPatch (setUnset path value []) :=
    wellFormedPatch_setUnset (by simp) nodup_nil not_mem_nil value
  refine ⟨hwf _ _, hwf _ _, fun h => ?_⟩
  exact h.clear "bag" "1" (.inl (by decide +kernel)) (.inl (by decide +kernel))

/-- What the flusher is given: a full write carries a document. -/
def WellFormed (x : SaveItem V) : Prop :=
  x.isRemove = false ∧ (x.mode = .full → x.data ≠ [])

variable (seg : List (SaveItem V))

/-- No patch stands behind a full write. -/
def FullLast : Prop :=
  seg.Pairwise fun x y => x.mode = .full → y.mode = .full

instance (seg : List (SaveItem V)) : Decidable (FullLast seg) :=
  inferInstanceAs (Decidable (List.Pairwise _ seg))

instance (x : SaveItem V) : Decidable (WellFormed x) :=
  inferInstanceAs (Decidable (_ ∧ _))

def writeItem (decode : Bytes → Doc V) (x : SaveItem V) : Option (Doc V) → Doc V :=
  writeDoc decode x.toOp

variable {x : SaveItem V} (decode : Bytes → Doc V)

theorem writeItem_full (h : x.mode = .full) (doc : Option (Doc V)) :
    writeItem decode x doc = decode x.data := by
  simp [writeItem, writeDoc, SaveItem.toOp, h]

theorem writeItem_patch (h : x.mode = .patch) (doc : Option (Doc V)) :
    writeItem decode x doc = applyPatch x.patch (doc.getD fun _ => none) := by
  simp [writeItem, writeDoc, SaveItem.toOp, h]

/-- The document after a list of saves. -/
def docAfter (decode : Bytes → Doc V) (start : Option (Stored (Doc V)))
    (xs : List (SaveItem V)) : Option (Stored (Doc V)) :=
  history SaveItem.version (writeItem decode) start xs

def patchAll (doc : Doc V) : Doc V :=
  seg.foldl (fun d x => applyPatch x.patch d) doc

/-- The data a merged save carries: that of the last save that has any. -/
def lastData : Bytes :=
  ((seg.map SaveItem.data).filter fun data => data ≠ []).getLast?.getD []

variable (seg : List (SaveItem V))

theorem lastData_snoc (x : SaveItem V) :
    lastData (seg ++ [x]) = if x.data = [] then lastData seg else x.data := by
  split_ifs with hdata
  · simp [lastData, hdata]
  · simp [lastData, hdata]

def lastPatches (seg : List (SaveItem V)) : List (SaveItem V) :=
  seg.rtakeWhile fun x => x.mode = .patch

theorem lastPatches_append {patches : List (SaveItem V)} (h : ∀ y ∈ patches, y.mode = .patch) :
    lastPatches (seg ++ patches) = lastPatches seg ++ patches := by
  induction patches using reverseRecOn with
  | nil => simp
  | append_singleton patches x ih =>
    have hx : x.mode = .patch := h x (by simp)
    rw [← append_assoc, lastPatches, rtakeWhile_concat_pos _ _ _ (by simp [hx]), ← append_assoc]
    congr 1
    exact ih fun y hy => h y (mem_append_left _ hy)

theorem lastPatches_full (h : x.mode = .full) : lastPatches (seg ++ [x]) = [] := by
  apply rtakeWhile_concat_neg
  simp [h]

/-- `w` is what the saves `seg ++ [x]` are merged to. -/
structure Merged (seg : List (SaveItem V)) (x w : SaveItem V) : Prop where
  version : w.version = x.version
  mode : w.mode = x.mode
  data : w.data = lastData (seg ++ [x])
  patch : x.mode = .patch →
    ∀ doc, applyPatch w.patch doc = patchAll (lastPatches (seg ++ [x])) doc

theorem mergeAll_merged {seg} (hver : (seg ++ [x]).Pairwise fun x y => x.version < y.version) :
    ∃ w, mergeAll (seg ++ [x]) = some w ∧ Merged seg x w := by
  induction seg using reverseRecOn generalizing x with
  | nil =>
    refine ⟨x, rfl, rfl, rfl, ?_, ?_⟩
    · rw [lastData_snoc]
      split_ifs with hdata
      · exact hdata
      · rfl
    · intro hpatch doc
      rw [lastPatches_append [] (by simp [hpatch])]
      rfl
  | append_singleton seg y ih =>
    obtain ⟨hverseg, -, hcross⟩ := pairwise_append.mp hver
    obtain ⟨e, he, hmerge⟩ := ih hverseg
    have hlt := hcross y (by simp) x (by simp)
    have hle : e.version ≤ x.version := by
      rw [hmerge.version]
      exact Nat.le_of_lt hlt
    rw [mergeAll_snoc, he]
    refine ⟨_, rfl, ?_⟩
    simp only [mergeSaveItem, hle, if_true]
    refine ⟨rfl, rfl, ?_, ?_⟩
    · rw [lastData_snoc]
      exact if_congr Iff.rfl hmerge.data rfl
    intro hpatch doc
    rw [lastPatches_append _ (by simp [hpatch])]
    cases hy : y.mode with
    | patch =>
      simp only [hpatch, hmerge.mode.trans hy, and_self, if_true]
      rw [applyPatch_merge, hmerge.patch hy]
      simp [patchAll]
    | full =>
      -- the patch of a full write is not merged
      rw [lastPatches_full seg hy]
      simp [patchAll, hmerge.mode.trans hy]

/-- `w` is written in place of the saves `seg ++ [x]`. -/
structure MergeOf (seg : List (SaveItem V)) (x w : SaveItem V) : Prop where
  version : w.version = x.version
  mode : w.mode = x.mode
  full : x.mode = .full → w.data = x.data
  patch : x.mode = .patch → ∀ doc, applyPatch w.patch doc = patchAll (seg ++ [x]) doc

theorem FullLast.all_patches {seg} (hlast : FullLast (seg ++ [x])) (hx : x.mode = .patch) :
    ∀ y ∈ seg ++ [x], y.mode = .patch := by
  intro y hy
  rcases mem_append.mp hy with hseg | hnew
  · cases hmode : y.mode with
    | patch => rfl
    | full =>
      have hfull := (pairwise_append.mp hlast).2.2 y hseg x (by simp) hmode
      rw [hx] at hfull
      exact hfull.symm
  · rwa [mem_singleton.mp hnew]

theorem mergeAll_spec {seg} (hver : (seg ++ [x]).Pairwise fun x y => x.version < y.version)
    (hwf : ∀ y ∈ seg ++ [x], WellFormed y) (hlast : FullLast (seg ++ [x])) :
    ∃ w, mergeAll (seg ++ [x]) = some w ∧ MergeOf seg x w := by
  obtain ⟨w, hw, hmerge⟩ := mergeAll_merged hver
  refine ⟨w, hw, hmerge.version, hmerge.mode, ?_, ?_⟩
  · intro hfull
    rw [hmerge.data, lastData_snoc, if_neg ((hwf x (by simp)).2 hfull)]
  · intro hpatch doc
    rw [hmerge.patch hpatch]
    exact congrArg (patchAll · doc) (lastPatches_append [] (hlast.all_patches hpatch))

theorem docAfter_snoc (start : Option (Stored (Doc V))) (xs : List (SaveItem V)) (x : SaveItem V) :
    docAfter decode start (xs ++ [x]) =
      some ⟨x.version, writeItem decode x ((docAfter decode start xs).map Stored.doc)⟩ :=
  history_snoc _ _ start xs x

theorem docAfter_patches (start : Option (Stored (Doc V))) (pre seg : List (SaveItem V))
    (hpatch : ∀ y ∈ seg ++ [x], y.mode = .patch) :
    docAfter decode start (pre ++ (seg ++ [x])) = some ⟨x.version,
      patchAll (seg ++ [x]) (((docAfter decode start pre).map Stored.doc).getD fun _ => none)⟩ := by
  induction seg using reverseRecOn generalizing x with
  | nil =>
    rw [nil_append, docAfter_snoc, writeItem_patch _ (hpatch x (by simp))]
    rfl
  | append_singleton seg y ih =>
    have hprev := ih fun z hz => hpatch z (mem_append_left _ hz)
    rw [← append_assoc, docAfter_snoc, hprev, writeItem_patch _ (hpatch x (by simp))]
    simp [patchAll]

theorem merged_write {w : SaveItem V} {decode start pre seg} (hmerge : MergeOf seg x w)
    (hlast : FullLast (seg ++ [x])) :
    ∃ d, docAfter decode start (pre ++ (seg ++ [x])) = some d ∧ d.version = w.version ∧
      (w.mode = .full → ∀ doc, writeItem decode w doc = d.doc) ∧
      (w.mode = .patch →
        writeItem decode w ((docAfter decode start pre).map Stored.doc) = d.doc) := by
  cases hmode : x.mode with
  | full =>
    refine ⟨_, by rw [← append_assoc, docAfter_snoc], hmerge.version.symm, ?_, ?_⟩
    · intro _ doc
      simp [writeItem, writeDoc, SaveItem.toOp, hmerge.mode, hmode, hmerge.full hmode]
    · rw [hmerge.mode, hmode]
      simp
  | patch =>
    refine ⟨_, docAfter_patches decode start pre seg (hlast.all_patches hmode),
      hmerge.version.symm, ?_, ?_⟩
    · rw [hmerge.mode, hmode]
      simp
    · intro _
      simp only [writeItem, writeDoc, SaveItem.toOp, hmerge.mode, hmode]
      exact hmerge.patch hmode _

end CubeCore.PatchMerge
