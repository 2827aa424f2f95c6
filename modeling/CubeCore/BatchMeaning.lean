import CubeCore.DocumentRuns
import Mathlib.Logic.Nontrivial.Basic

namespace CubeCore.BatchMeaning

open SaveItems JournalQueue BatchDedup VersionStore FlusherSystem PatchMerge KeptOperations Function
open Stored
open DocumentRuns

variable {V : Type}

/-- The documents one `BulkRemove` is about. -/
def removedBy (group : RemoveKey × List RemoveId) : List Target :=
  group.2.map fun r => group.1.target r.id

/-- The saves of a batch, then its removes, with no errors. -/
def executeBatch (decode : Bytes → Doc V) (b : Backend V) (saves : List (SaveItem V))
    (removes : List (RemoveKey × List RemoveId)) : Backend V :=
  removes.foldl (fun b group => remove b (removedBy group))
    (bulkSave decode b (saves.map SaveItem.toOp) []).1

theorem foldl_remove (removes : List (RemoveKey × List RemoveId)) (b : Backend V) :
    removes.foldl (fun b group => remove b (removedBy group)) b =
      remove b (removes.flatMap removedBy) := by
  induction removes generalizing b with
  | nil =>
    funext t
    simp [remove]
  | cons group removes ih =>
    funext t
    rw [List.foldl_cons, ih]
    by_cases hrest : t ∈ removes.flatMap removedBy
    · rw [remove_of_mem _ hrest, remove_of_mem _ (by simp [hrest])]
    rw [remove_of_notMem _ hrest]
    by_cases hgroup : t ∈ removedBy group
    · rw [remove_of_mem _ hgroup, remove_of_mem _ (by simp [hgroup])]
    · rw [remove_of_notMem _ hgroup, remove_of_notMem]
      rw [List.flatMap_cons, List.mem_append]
      exact not_or.mpr ⟨hgroup, hrest⟩

variable {removes : List (RemoveKey × List RemoveId)} {t : Target}

theorem mem_removedBy_iff : t ∈ removes.flatMap removedBy ↔ ∃ st, HoldsRemove removes t st := by
  simp only [removedBy, List.mem_flatMap, List.mem_map, HoldsRemove]
  constructor
  · rintro ⟨group, hgroup, r, hr, htarget⟩
    exact ⟨r.stamps, group, hgroup, r, hr, htarget, rfl⟩
  · rintro ⟨st, group, hgroup, r, hr, htarget, -⟩
    exact ⟨group, hgroup, r, hr, htarget⟩

/-- What a batch leaves of one document, by the operations on it. -/
def merged (decode : Bytes → Doc V) (d : Option (Stored (Doc V))) (ops : List (SaveItem V)) :
    Option (Stored (Doc V)) :=
  if waiting ops = [] then (mergeAll (lastRun ops)).elim d (saved decode d) else none

variable (decode : Bytes → Doc V)

theorem bulkSave_dedup (b : Backend V) (entries : List (JournalEntry V)) (t : Target) :
    (bulkSave decode b ((dedup entries).saves.map SaveItem.toOp) []).1 t =
      (mergeAll (lastRun (opsOn t (opsOf entries)))).elim (b t) (saved decode (b t)) := by
  rw [← saveMap_lookup]
  cases hlook : (tablesOf (opsOf entries)).saveMap.lookup t with
  | none =>
    apply bulkSave_other
    intro op hop htarget
    obtain ⟨w, hw, rfl⟩ := List.mem_map.mp hop
    have hsome := mem_saves_iff.mp hw
    rw [show w.target = t from htarget, hlook] at hsome
    simp at hsome
  | some w =>
    obtain ⟨rfl, -⟩ := saveMap_provenance hlook
    have hmem : w.toOp ∈ (dedup entries).saves.map SaveItem.toOp :=
      List.mem_map_of_mem (mem_saves_iff.mpr hlook)
    have hnodup : (((dedup entries).saves.map SaveItem.toOp).map SaveOp.target).Nodup := by
      rw [List.map_map]
      exact saves_nodup entries
    exact (bulkSave_self decode b hnodup hmem List.not_mem_nil).trans (saveOne_self decode b w)

theorem executeBatch_dedup (b : Backend V) (hremoves : removes.Perm (dedup entries).removes)
    (t : Target) :
    executeBatch decode b (dedup entries).saves removes t =
      merged decode (b t) (opsOn t (opsOf entries)) := by
  have hheld : t ∈ removes.flatMap removedBy ↔ waiting (opsOn t (opsOf entries)) ≠ [] := by
    rw [(hremoves.flatMap_right removedBy).mem_iff, mem_removedBy_iff, ← holdsRemove_iff_waiting]
    simp only [holdsRemove_dedup_iff]
  rw [executeBatch, foldl_remove, merged]
  by_cases hwait : waiting (opsOn t (opsOf entries)) = []
  · rw [if_pos hwait, remove_of_notMem _ fun h => hheld.mp h hwait]
    exact bulkSave_dedup decode b entries t
  · rw [if_neg hwait]
    exact remove_of_mem _ (hheld.mpr hwait)

variable (stored : Option Nat)

/-- The saves behind the last remove that are let through one by one. -/
def effective (ops : List (SaveItem V)) : List (SaveItem V) :=
  live (foundBy ops stored) (lastRun ops)

variable {ops : List (SaveItem V)}

theorem foldl_operated_run (d : Option (Stored (Doc V))) (hrun : Growing (lastRun ops)) :
    ops.foldl (operated decode) d =
      docAfter decode (foundBy ops d) (effective (d.map version) ops) := by
  rw [foldl_operated, foldl_saved decode _ hrun, foundBy_map]
  rfl

/-- What is removed and saved again was not stored before, or is written in full at a later
version. -/
def Recreates (ops : List (SaveItem V)) (x : SaveItem V) : Prop :=
  ops.any SaveItem.isRemove = true → ∀ v, stored = some v → v < x.version ∧ x.mode = .full

/-- When operations that end in the save `x` can be merged: no remove follows another directly, a
full write has the merged data, and before a patch no full write is let through, nor does a patch
that is held back touch a field of its own. -/
structure Mergeable (stored : Option Nat) (ops : List (SaveItem V)) (x : SaveItem V) :
    Prop where
  once : repeated ops = []
  recreated : Recreates stored ops x
  data : x ∈ effective stored ops → x.mode = .full → lastData (lastRun ops) = x.data
  patches : x.mode = .patch → ∀ y ∈ effective stored ops, y.mode = .patch
  covered : x ∈ effective stored ops → x.mode = .patch →
    ∀ y ∈ lastPatches (lastRun ops), ∀ field, Touches y.patch field →
      ∃ z ∈ effective stored ops, Touches z.patch field

/-- The operations on one document end in a remove, or in a save behind which
they can be merged. -/
def Dedupable (ops : List (SaveItem V)) : Prop :=
  ∀ x, (lastRun ops).getLast? = some x → Mergeable stored ops x

/-- Merging leaves the same document, whatever the stored document and the
written bytes contain. -/
def Same (ops : List (SaveItem V)) : Prop :=
  ∀ (decode : Bytes → Doc V) (d : Option (Stored (Doc V))), d.map Stored.version = stored →
    (merged decode d ops).map Stored.doc = (ops.foldl (operated decode) d).map Stored.doc

section EndsInSave

variable {stored : Option Nat} {ops : List (SaveItem V)} {x : SaveItem V}
  {d : Option (Stored (Doc V))} {field : String}

theorem Recreates.foundBy_stored (h : Recreates (d.map version) (ops ++ [x]) x)
    (hmode : x.mode = .patch) : foundBy (ops ++ [x]) d = d := by
  cases hremove : (ops ++ [x]).any SaveItem.isRemove with
  | false => exact foundBy_of_no_remove hremove d
  | true =>
    cases d with
    | none => exact foundBy_of_remove hremove none
    | some d =>
      have hfull := (h hremove d.version rfl).2
      rw [hmode] at hfull
      exact SaveMode.noConfusion hfull

theorem Mergeable.patchAll_eq (h : Mergeable stored (ops ++ [x]) x)
    (hrun : Growing (lastRun (ops ++ [x]))) (hmem : x ∈ effective stored (ops ++ [x]))
    (hmode : x.mode = .patch) (doc : Doc V) :
    patchAll (lastPatches (lastRun (ops ++ [x]))) doc =
      patchAll (effective stored (ops ++ [x])) doc := by
  obtain ⟨stale, hsplit⟩ := exists_live_suffix hrun (foundBy (ops ++ [x]) stored)
  have hlast : lastPatches (lastRun (ops ++ [x])) =
      lastPatches stale ++ effective stored (ops ++ [x]) := by
    conv_lhs => rw [hsplit]
    exact lastPatches_append stale (h.patches hmode)
  rw [hlast]
  apply patchAll_covered
  intro y hy
  apply h.covered hmem hmode
  rw [hlast]
  exact List.mem_append_left _ hy

def storedAs (stored : Option Nat) (doc : Doc V) : Option (Stored (Doc V)) :=
  stored.map fun v => ⟨v, doc⟩

@[simp] theorem storedAs_version (stored : Option Nat) (doc : Doc V) :
    (storedAs stored doc).map version = stored := by
  cases stored <;> rfl

theorem any_remove_of_repeated (h : repeated ops ≠ []) : ops.any SaveItem.isRemove = true := by
  obtain ⟨rk, hrk⟩ := List.exists_mem_of_ne_nil _ h
  obtain ⟨r, hr, hremove, -⟩ := exists_of_mem_waiting (List.mem_append_left _ hrk)
  exact List.any_eq_true.mpr ⟨r, hr, hremove⟩

theorem fields_operated (hrun : Growing (lastRun ops))
    (hfree : ∀ y ∈ lastRun ops, ¬ Touches y.patch field) (whole : Doc V)
    (d : Option (Stored (Doc V))) :
    fieldsOf (ops.foldl (operated fun _ => whole) d) field =
      if ∃ y ∈ effective (d.map version) ops, y.mode = .full then whole field
      else fieldsOf (foundBy ops d) field := by
  rw [foldl_operated_run _ d hrun]
  apply fieldsOf_docAfter
  intro y hy
  exact hfree y (mem_live_iff.mp hy).1

theorem Same.fields (h : Same stored ops) (decode : Bytes → Doc V) (doc : Doc V) :
    fieldsOf (merged decode (storedAs stored doc) ops) =
      fieldsOf (ops.foldl (operated decode) (storedAs stored doc)) :=
  congrArg (fun d : Option (Doc V) => d.getD fun _ => none)
    (h decode (storedAs stored doc) (storedAs_version stored doc))

variable (hx : x.isRemove = false)
include hx

theorem mem_effective_iff :
    x ∈ effective stored (ops ++ [x]) ↔ above (foundBy (ops ++ [x]) stored) x.version = true := by
  rw [effective, mem_live_iff, lastRun_save ops hx]
  simp

theorem effective_of_mem (hmem : x ∈ effective stored (ops ++ [x])) :
    effective stored (ops ++ [x]) = live (foundBy (ops ++ [x]) stored) (lastRun ops) ++ [x] := by
  rw [effective, lastRun_save ops hx, live_snoc_of_above ((mem_effective_iff hx).mp hmem)]

theorem mem_effective_of_remove (hremove : (ops ++ [x]).any SaveItem.isRemove = true) :
    x ∈ effective stored (ops ++ [x]) := by
  rw [mem_effective_iff hx, foundBy_of_remove hremove]
  rfl

theorem Recreates.above_stored (h : Recreates stored (ops ++ [x]) x)
    (hmem : x ∈ effective stored (ops ++ [x])) : above stored x.version = true := by
  cases hremove : (ops ++ [x]).any SaveItem.isRemove with
  | true =>
    cases stored with
    | none => rfl
    | some v => exact decide_eq_true (h hremove v rfl).1
  | false =>
    rwa [mem_effective_iff hx, foundBy_of_no_remove hremove] at hmem

variable (hrun : Growing (lastRun (ops ++ [x])))
include hrun

section

variable (honce : repeated (ops ++ [x]) = [])
include honce

variable (decode : Bytes → Doc V)

theorem merged_eq (d : Option (Stored (Doc V))) :
    ∃ w, Merged (lastRun ops) x w ∧
      merged decode d (ops ++ [x]) = if above (d.map version) x.version then
        some ⟨x.version, writeItem decode w (d.map doc)⟩ else d := by
  have hwait : waiting (ops ++ [x]) = [] := by
    rw [waiting_save ops hx]
    simpa [repeated_snoc, hx] using honce
  rw [lastRun_save ops hx] at hrun
  obtain ⟨w, hw, hmerge⟩ := mergeAll_merged hrun
  refine ⟨w, hmerge, ?_⟩
  rw [merged, if_pos hwait, lastRun_save ops hx, hw, Option.elim_some, saved, accepts_eq_above,
    hmerge.version]

theorem merged_stale (hstale : above (d.map version) x.version = false) :
    merged decode d (ops ++ [x]) = d := by
  obtain ⟨w, -, heq⟩ := merged_eq hx hrun honce decode d
  rw [heq, hstale]
  rfl

theorem merged_full (habove : above (d.map version) x.version = true) (hmode : x.mode = .full) :
    merged decode d (ops ++ [x]) = some ⟨x.version, decode (lastData (lastRun (ops ++ [x])))⟩ := by
  obtain ⟨w, hmerge, heq⟩ := merged_eq hx hrun honce decode d
  rw [heq, if_pos habove, writeItem_full decode (hmerge.mode.trans hmode), hmerge.data,
    lastRun_save ops hx]

theorem merged_patch (habove : above (d.map version) x.version = true) (hmode : x.mode = .patch) :
    merged decode d (ops ++ [x]) =
      some ⟨x.version, patchAll (lastPatches (lastRun (ops ++ [x]))) (fieldsOf d)⟩ := by
  obtain ⟨w, hmerge, heq⟩ := merged_eq hx hrun honce decode d
  rw [heq, if_pos habove, writeItem_patch decode (hmerge.mode.trans hmode), hmerge.patch hmode,
    lastRun_save ops hx]
  rfl

end

theorem effective_of_notMem (hmem : x ∉ effective stored (ops ++ [x])) :
    effective stored (ops ++ [x]) = [] := by
  have hstale := Bool.eq_false_iff.mpr fun h => hmem ((mem_effective_iff hx).mpr h)
  rw [effective]
  rw [lastRun_save ops hx] at hrun ⊢
  exact live_eq_nil hrun hstale

variable (decode : Bytes → Doc V)

theorem operated_stale (hmem : x ∉ effective (d.map version) (ops ++ [x])) :
    (ops ++ [x]).foldl (operated decode) d = foundBy (ops ++ [x]) d := by
  rw [foldl_operated_run decode d hrun, effective_of_notMem hx hrun hmem]
  rfl

theorem operated_last (hmem : x ∈ effective (d.map version) (ops ++ [x])) :
    ∃ before, (ops ++ [x]).foldl (operated decode) d =
      some ⟨x.version, writeItem decode x before⟩ := by
  rw [foldl_operated_run decode d hrun, effective_of_mem hx hmem]
  exact ⟨_, docAfter_snoc decode _ _ x⟩

theorem operated_patches (hmem : x ∈ effective (d.map version) (ops ++ [x]))
    (hpatches : ∀ y ∈ effective (d.map version) (ops ++ [x]), y.mode = .patch) :
    (ops ++ [x]).foldl (operated decode) d = some ⟨x.version,
      patchAll (effective (d.map version) (ops ++ [x]))
        (fieldsOf (foundBy (ops ++ [x]) d))⟩ := by
  rw [foldl_operated_run decode d hrun]
  rw [effective_of_mem hx hmem] at hpatches ⊢
  exact docAfter_patches decode _ [] _ hpatches

theorem Mergeable.same (h : Mergeable stored (ops ++ [x]) x) : Same stored (ops ++ [x]) := by
  rintro decode d rfl
  by_cases hmem : x ∈ effective (d.map version) (ops ++ [x])
  · have habove := h.recreated.above_stored hx hmem
    cases hmode : x.mode with
    | full =>
      obtain ⟨before, hlast⟩ := operated_last hx hrun decode hmem
      rw [hlast, merged_full hx hrun h.once decode habove hmode, h.data hmem hmode,
        writeItem_full decode hmode]
    | patch =>
      rw [operated_patches hx hrun decode hmem (h.patches hmode),
        merged_patch hx hrun h.once decode habove hmode, h.patchAll_eq hrun hmem hmode,
        h.recreated.foundBy_stored hmode]
  · -- there is no remove, and the stored document is a later one
    have hremove : (ops ++ [x]).any SaveItem.isRemove = false :=
      Bool.eq_false_iff.mpr fun hremove => hmem (mem_effective_of_remove hx hremove)
    have hstale : above (d.map version) x.version = false := by
      rw [mem_effective_iff hx, foundBy_of_no_remove hremove] at hmem
      exact Bool.eq_false_iff.mpr hmem
    rw [operated_stale hx hrun decode hmem, foundBy_of_no_remove hremove,
      merged_stale hx hrun h.once decode hstale]

theorem Same.once (h : Same stored (ops ++ [x])) : repeated (ops ++ [x]) = [] := by
  by_contra hne
  have hmem : x ∈ effective stored (ops ++ [x]) :=
    mem_effective_of_remove hx (any_remove_of_repeated hne)
  have heq := h (fun _ _ => none) (storedAs stored fun _ => none) (storedAs_version _ _)
  rw [← storedAs_version stored (fun _ => none : Doc V)] at hmem
  obtain ⟨before, hlast⟩ := operated_last hx hrun (fun _ _ => none) hmem
  have hwait : waiting (ops ++ [x]) ≠ [] := fun hnil =>
    hne (List.append_eq_nil_iff.mp hnil).1
  rw [hlast, merged, if_neg hwait] at heq
  simp at heq

theorem fields_merged (honce : repeated (ops ++ [x]) = []) (hmode : x.mode = .patch)
    (hfree : ∀ y ∈ lastRun (ops ++ [x]), ¬ Touches y.patch field) (decode : Bytes → Doc V)
    (d : Option (Stored (Doc V))) :
    fieldsOf (merged decode d (ops ++ [x])) field = fieldsOf d field := by
  cases habove : above (d.map version) x.version with
  | false => rw [merged_stale hx hrun honce decode habove]
  | true =>
    rw [merged_patch hx hrun honce decode habove hmode]
    apply patchAll_untouched
    intro y hy
    exact hfree y ((List.rtakeWhile_suffix _ _).subset hy)

variable [Nonempty V]

variable (h : Same stored (ops ++ [x]))
include h

theorem Same.recreates : Recreates stored (ops ++ [x]) x := by
  rintro hremove v rfl
  by_contra hnot
  obtain ⟨value⟩ := ‹Nonempty V›
  obtain ⟨field, hfree⟩ := exists_untouched (lastRun (ops ++ [x]))
  have honce := h.once hx hrun
  -- the old document has a field that no save writes
  have hseq : fieldsOf ((ops ++ [x]).foldl (operated fun _ _ => none)
      (storedAs (some v) fun _ => some value)) field = none := by
    rw [fields_operated hrun hfree, foundBy_of_remove hremove]
    split <;> rfl
  rw [← h.fields] at hseq
  cases hmode : x.mode with
  | patch =>
    rw [fields_merged hx hrun honce hmode hfree] at hseq
    simp [fieldsOf, storedAs] at hseq
  | full =>
    have hstale : above (some v) x.version = false := decide_eq_false fun hlt => hnot ⟨hlt, hmode⟩
    rw [merged_stale hx hrun honce _ (by exact hstale)] at hseq
    simp [fieldsOf, storedAs] at hseq

theorem Same.data (hmem : x ∈ effective stored (ops ++ [x])) (hmode : x.mode = .full) :
    lastData (lastRun (ops ++ [x])) = x.data := by
  by_contra hne
  obtain ⟨value⟩ := ‹Nonempty V›
  have habove := (h.recreates hx hrun).above_stored hx hmem
  -- a decoder that tells the two apart
  have heq := congrFun (h.fields (fun bytes _ => if bytes = x.data then none else some value)
    fun _ => none) ""
  rw [← storedAs_version stored (fun _ => none : Doc V)] at hmem habove
  obtain ⟨before, hlast⟩ := operated_last hx hrun
    (fun bytes _ => if bytes = x.data then none else some value) hmem
  rw [hlast, merged_full hx hrun (h.once hx hrun) _ habove hmode, writeItem_full _ hmode] at heq
  simp [fieldsOf, hne] at heq

theorem Same.patches (hmode : x.mode = .patch) :
    ∀ y ∈ effective stored (ops ++ [x]), y.mode = .patch := by
  intro y hy
  cases hfull : y.mode with
  | patch => rfl
  | full =>
    obtain ⟨value⟩ := ‹Nonempty V›
    obtain ⟨field, hfree⟩ := exists_untouched (lastRun (ops ++ [x]))
    -- the full write has a field that no patch touches
    have heq := congrFun (h.fields (fun _ _ => some value) fun _ => none) field
    rw [fields_merged hx hrun (h.once hx hrun) hmode hfree, fields_operated hrun hfree,
      storedAs_version, if_pos ⟨y, hy, hfull⟩] at heq
    cases stored <;> simp [fieldsOf, storedAs] at heq

theorem Same.covered (hmem : x ∈ effective stored (ops ++ [x])) (hmode : x.mode = .patch)
    (hy : y ∈ lastPatches (lastRun (ops ++ [x]))) (htouch : Touches y.patch field) :
    ∃ z ∈ effective stored (ops ++ [x]), Touches z.patch field := by
  by_contra hnone
  have hfree : ∀ z ∈ effective stored (ops ++ [x]), ¬ Touches z.patch field :=
    fun z hz hfield => hnone ⟨z, hz, hfield⟩
  have hrest : y ∈ lastRun (ops ++ [x]) := (List.rtakeWhile_suffix _ _).subset hy
  -- some patch is not let through, so something is stored and it is not removed
  obtain ⟨v, hfound⟩ : ∃ v, foundBy (ops ++ [x]) stored = some v := by
    cases hfound : foundBy (ops ++ [x]) stored with
    | some v => exact ⟨v, rfl⟩
    | none =>
      refine absurd htouch (hfree y ?_)
      rwa [effective, hfound, live_none]
  have hremove : (ops ++ [x]).any SaveItem.isRemove = false := by
    refine Bool.eq_false_iff.mpr fun hremove => ?_
    rw [foundBy_of_remove hremove] at hfound
    simp at hfound
  rw [foundBy_of_no_remove hremove] at hfound
  subst hfound
  obtain ⟨other, hother⟩ := exists_ne
    (patchAll (lastPatches (lastRun (ops ++ [x]))) (fun _ => none : Doc V) field)
  have heq := congrFun (h.fields (fun _ _ => none) fun _ => other) field
  have habove := (h.recreates hx hrun).above_stored hx hmem
  have hpatches := h.patches hx hrun hmode
  rw [← storedAs_version (some v) (fun _ => other : Doc V)] at hmem habove hpatches hfree
  rw [merged_patch hx hrun (h.once hx hrun) _ habove hmode,
    operated_patches hx hrun _ hmem hpatches, foundBy_of_no_remove hremove] at heq
  simp only [fieldsOf, Option.map_some, Option.getD_some] at heq
  rw [patchAll_untouched hfree, patchAll_touched hy htouch _ fun _ => none] at heq
  exact hother heq.symm

theorem Same.mergeable : Mergeable stored (ops ++ [x]) x where
  once := h.once hx hrun
  recreated := h.recreates hx hrun
  data := h.data hx hrun
  patches := h.patches hx hrun
  covered := fun hmem hmode _ hy _ htouch => h.covered hx hrun hmem hmode hy htouch

end EndsInSave

theorem same_iff_dedupable [Nonempty V] {stored : Option Nat} (hrun : Growing (lastRun ops)) :
    Same stored ops ↔ Dedupable stored ops := by
  rcases List.eq_nil_or_concat ops with rfl | ⟨rest, x, rfl⟩
  · constructor
    · intro _ x hlast
      simp at hlast
    · intro _ decode d _
      rfl
  rw [List.concat_eq_append] at hrun ⊢
  cases hx : x.isRemove with
  | true =>
    constructor
    · intro _ y hlast
      simp [lastRun_remove rest hx] at hlast
    intro _ decode d _
    have hwait : waiting (rest ++ [x]) ≠ [] := by simp [waiting_remove rest hx]
    rw [merged, if_neg hwait]
    simp [operated, hx]
  | false =>
    constructor
    · intro h y hlast
      obtain rfl : x = y := by simpa [lastRun_save rest hx] using hlast
      exact h.mergeable hx hrun
    · intro h
      exact (h x (by simp [lastRun_save rest hx])).same hx hrun

/-- Between two removes the versions of the saves grow. -/
def GrowingBetweenRemoves (ops : List (SaveItem V)) : Prop :=
  ops.IsChain fun x y => x.isRemove = false → y.isRemove = false → x.version < y.version

instance (ops : List (SaveItem V)) : Decidable (GrowingBetweenRemoves ops) :=
  inferInstanceAs (Decidable (List.IsChain _ ops))

theorem growing_lastRun (h : GrowingBetweenRemoves ops) : Growing (lastRun ops) := by
  have hchain : (lastRun ops).IsChain fun x y => x.version < y.version := by
    refine (h.suffix (List.rtakeWhile_suffix _ ops)).imp_of_mem_imp ?_
    intro x y hx hy hlt
    have saves : ∀ z ∈ lastRun ops, z.isRemove = false := fun z hz => by
      simpa using List.mem_rtakeWhile_imp hz
    exact hlt (saves x hx) (saves y hy)
  exact hchain.pairwise

/-- A deduplicated batch leaves what its operations leave one by one, exactly when those of each
document can be merged. -/
theorem dedup_keeps_meaning_iff [Nonempty V] (entries : List (JournalEntry V))
    (hversions : ∀ t, GrowingBetweenRemoves (opsOn t (opsOf entries)))
    (stored : Target → Option Nat) :
    (∀ (decode : Bytes → Doc V) (b : Backend V), (∀ t, (b t).map Stored.version = stored t) →
      ∀ removes, removes.Perm (dedup entries).removes → ∀ t,
        (executeBatch decode b (dedup entries).saves removes t).map Stored.doc =
          (oneByOne decode b (opsOf entries) t).map Stored.doc) ↔
    ∀ t, Dedupable (stored t) (opsOn t (opsOf entries)) := by
  constructor
  · intro hsame t
    rw [← same_iff_dedupable (growing_lastRun (hversions t))]
    intro decode d hd
    have hbackend : ∀ u, (update (fun u => storedAs (stored u) fun _ => none) t d u).map
        version = stored u := by
      intro u
      rcases eq_or_ne u t with rfl | hne
      · rw [update_self, hd]
      · rw [update_of_ne hne, storedAs_version]
    have heq := hsame decode _ hbackend _ (List.Perm.refl _) t
    rw [executeBatch_dedup decode _ (List.Perm.refl _), oneByOne_apply, update_self] at heq
    exact heq
  · intro hdedup decode b hb removes hremoves t
    rw [executeBatch_dedup decode b hremoves, oneByOne_apply]
    exact (same_iff_dedupable (growing_lastRun (hversions t))).mpr (hdedup t) decode (b t) (hb t)

def player : Target := ⟨"game", .global, "players", 100⟩

def removal (t : Target) (fence : Nat) : SaveItem Nat :=
  { (.full t 0 [] : SaveItem Nat) with fence := fence }

theorem opsOn_other (hne : u ≠ t) (h : ∀ x ∈ ops, x.target = t) :
    opsOn u ops = [] := by
  rw [opsOn, List.filter_eq_nil_iff]
  intro x hx
  simpa [h x hx] using Ne.symm hne

theorem growing_opsOn (h : ∀ x ∈ ops, x.target = t) (hops : GrowingBetweenRemoves ops)
    (u : Target) : GrowingBetweenRemoves (opsOn u ops) := by
  rcases eq_or_ne u t with rfl | hne
  · rwa [opsOn, List.filter_eq_self.mpr fun x hx => decide_eq_true (h x hx)]
  · rw [opsOn_other hne h]
    exact .nil

def recreation : List (JournalEntry Nat) :=
  [⟨[.full player 2 [1], removal player 0, .full player 3 [2]]⟩]

theorem dedup_keeps_meaning_iff_recreated :
    (∀ t, GrowingBetweenRemoves (opsOn t (opsOf recreation))) ∧
    (∀ (decode : Bytes → Doc Nat) (b : Backend Nat), (∀ t, (b t).map Stored.version = none) →
      ∀ removes, removes.Perm (dedup recreation).removes → ∀ t,
        (executeBatch decode b (dedup recreation).saves removes t).map Stored.doc =
          (oneByOne decode b (opsOf recreation) t).map Stored.doc) := by
  have hversions : ∀ t, GrowingBetweenRemoves (opsOn t (opsOf recreation)) :=
    growing_opsOn (t := player) (by decide) (by decide +kernel)
  refine ⟨hversions, (dedup_keeps_meaning_iff recreation hversions fun _ => none).mpr ?_⟩
  intro t x hlast
  rcases eq_or_ne t player with rfl | hne
  · have hlast' : (lastRun (opsOn player (opsOf recreation))).getLast? =
        some (.full player 3 [2]) := by decide +kernel
    obtain rfl := Option.some.inj (hlast'.symm.trans hlast)
    refine ⟨by decide +kernel, nofun, fun _ _ => by decide +kernel, nofun, nofun⟩
  · rw [opsOn_other hne (by decide)] at hlast
    simp at hlast

def removedTwice : List (JournalEntry Nat) :=
  [⟨[removal player 1, removal player 2, .full player 3 [2]]⟩]

def patchedAfterFull : List (JournalEntry Nat) :=
  [⟨[.full player 1 [1],
    { (.full player 2 [] : SaveItem Nat) with
      mode := .patch
      patch := ⟨AList.singleton "level" 5, [], []⟩ }]⟩]

def oneField : Bytes → Doc Nat := fun _ field => if field = "gold" then some 10 else none

/-- One save cancels one remove, and the other one deletes it; a full write is dropped for the patch
behind it. -/
theorem second_remove_deletes_save :
    ((∀ t, GrowingBetweenRemoves (opsOn t (opsOf removedTwice))) ∧
      (executeBatch oneField (fun _ => none) (dedup removedTwice).saves
        (dedup removedTwice).removes player).isSome = false ∧
      (oneByOne oneField (fun _ => none) (opsOf removedTwice) player).isSome = true) ∧
    ((∀ t, GrowingBetweenRemoves (opsOn t (opsOf patchedAfterFull))) ∧
      fieldsOf (executeBatch oneField (fun _ => none) (dedup patchedAfterFull).saves
        (dedup patchedAfterFull).removes player) "gold" = none ∧
      fieldsOf (oneByOne oneField (fun _ => none) (opsOf patchedAfterFull) player) "gold" =
        some 10) := by
  refine ⟨⟨growing_opsOn (t := player) ?_ ?_, ?_, ?_⟩, growing_opsOn (t := player) ?_ ?_, ?_, ?_⟩
  all_goals decide +kernel

end CubeCore.BatchMeaning
