import CubeCore.BatchDedup
import Mathlib.Data.List.DropRight

namespace CubeCore.KeptOperations

open SaveItems JournalQueue BatchDedup AList Tables

variable {V : Type}

def opsOn (t : Target) (ops : List (SaveItem V)) : List (SaveItem V) :=
  ops.filter fun x => x.target = t

variable {ops : List (SaveItem V)} {x : SaveItem V} {t : Target}

theorem opsOn_snoc_self (h : x.target = t) : opsOn t (ops ++ [x]) = opsOn t ops ++ [x] := by
  simp [opsOn, h]

theorem opsOn_snoc_other (h : x.target ≠ t) : opsOn t (ops ++ [x]) = opsOn t ops := by
  simp [opsOn, h]

theorem target_of_mem_opsOn (h : x ∈ opsOn t ops) : x.target = t := by
  simpa using (List.mem_filter.mp h).2

def lastRun (ops : List (SaveItem V)) : List (SaveItem V) :=
  ops.rtakeWhile fun x => !x.isRemove

@[simp] theorem lastRun_nil : lastRun ([] : List (SaveItem V)) = [] := rfl

theorem lastRun_remove (ops : List (SaveItem V)) (h : x.isRemove = true) :
    lastRun (ops ++ [x]) = [] := by
  apply List.rtakeWhile_concat_neg
  simp [h]

theorem lastRun_save (ops : List (SaveItem V)) (h : x.isRemove = false) :
    lastRun (ops ++ [x]) = lastRun ops ++ [x] := by
  apply List.rtakeWhile_concat_pos
  simp [h]

/-- The key of the remove a list of operations ends in: the one that a save
coming next cancels. -/
def openRemove (ops : List (SaveItem V)) : Option RemoveKey :=
  (ops.getLast?.filter SaveItem.isRemove).map removeKeyOf

@[simp] theorem openRemove_nil : openRemove ([] : List (SaveItem V)) = none := rfl

theorem openRemove_remove (ops : List (SaveItem V)) (h : x.isRemove = true) :
    openRemove (ops ++ [x]) = some (removeKeyOf x) := by
  simp [openRemove, h]

theorem openRemove_save (ops : List (SaveItem V)) (h : x.isRemove = false) :
    openRemove (ops ++ [x]) = none := by
  simp [openRemove, h]

/-- The keys of the removes that another remove directly follows. -/
def repeated : List (SaveItem V) → List RemoveKey
  | x :: y :: ops =>
    if x.isRemove && y.isRemove then removeKeyOf x :: repeated (y :: ops)
    else repeated (y :: ops)
  | _ => []

theorem openRemove_cons_cons (x y : SaveItem V) (ops : List (SaveItem V)) :
    openRemove (x :: y :: ops) = openRemove (y :: ops) := by
  simp [openRemove, List.getLast?_cons_cons]

theorem repeated_snoc (ops : List (SaveItem V)) (x : SaveItem V) :
    repeated (ops ++ [x]) = repeated ops ++ if x.isRemove then (openRemove ops).toList else [] := by
  induction ops with
  | nil => simp [repeated]
  | cons y ops ih =>
    cases ops with
    | nil =>
      cases hx : x.isRemove
      · simp [repeated, hx]
      · cases hy : y.isRemove
        · simp [repeated, openRemove, hx, hy]
        · simp [repeated, openRemove, hx, hy, Option.filter_some_pos]
    | cons =>
      rw [openRemove_cons_cons]
      simp only [List.cons_append, repeated] at ih ⊢
      split
      · rw [ih, List.cons_append]
      · exact ih

/-- The removes of one document that wait for the flusher. -/
def waiting (ops : List (SaveItem V)) : List RemoveKey :=
  repeated ops ++ (openRemove ops).toList

theorem waiting_remove (ops : List (SaveItem V)) (h : x.isRemove = true) :
    waiting (ops ++ [x]) = waiting ops ++ [removeKeyOf x] := by
  simp [waiting, repeated_snoc, openRemove_remove ops h, h]

theorem waiting_save (ops : List (SaveItem V)) (h : x.isRemove = false) :
    waiting (ops ++ [x]) = repeated ops := by
  simp [waiting, repeated_snoc, openRemove_save ops h, h]

variable {rk : RemoveKey}

theorem exists_of_mem_waiting (h : rk ∈ waiting ops) :
    ∃ x ∈ ops, x.isRemove = true ∧ removeKeyOf x = rk := by
  induction ops using List.reverseRecOn with
  | nil => simp [waiting, repeated] at h
  | append_singleton ops x ih =>
    have extend : (∃ y ∈ ops, y.isRemove = true ∧ removeKeyOf y = rk) →
        ∃ y ∈ ops ++ [x], y.isRemove = true ∧ removeKeyOf y = rk := by
      rintro ⟨y, hy, hfacts⟩
      exact ⟨y, List.mem_append_left _ hy, hfacts⟩
    cases hx : x.isRemove with
    | true =>
      rw [waiting_remove ops hx, List.mem_append] at h
      rcases h with hold | hnew
      · exact extend (ih hold)
      · exact ⟨x, by simp, hx, (List.mem_singleton.mp hnew).symm⟩
    | false =>
      rw [waiting_save ops hx] at h
      exact extend (ih (List.mem_append_left _ h))

theorem saveMap_lookup (ops : List (SaveItem V)) (t : Target) :
    (tablesOf ops).saveMap.lookup t = mergeAll (lastRun (opsOn t ops)) := by
  induction ops using List.reverseRecOn with
  | nil => rfl
  | append_singleton ops x ih =>
    rw [tablesOf_snoc, add]
    by_cases ht : x.target = t
    · rw [opsOn_snoc_self ht]
      cases hx : x.isRemove with
      | true =>
        rw [if_pos rfl, lastRun_remove _ hx]
        simp [addRemove, ht, mergeAll]
      | false =>
        subst ht
        rw [if_neg Bool.false_ne_true, lastRun_save _ hx, mergeAll_snoc, ← ih]
        simp [addSave]
    · rw [opsOn_snoc_other ht, ← ih]
      split
      · exact lookup_erase_ne (Ne.symm ht)
      · simp only [addSave, cancelRemove_saveMap]
        exact lookup_insert_ne (Ne.symm ht)

theorem removeIndex_cancelRemove (tb : Tables V) (t t' : Target) :
    (tb.cancelRemove t').removeIndex.lookup t =
      if t = t' then none else tb.removeIndex.lookup t := by
  cases hlook : tb.removeIndex.lookup t' with
  | none =>
    rw [cancelRemove_of_lookup_none hlook]
    split_ifs with heq
    · rw [heq, hlook]
    · rfl
  | some =>
    simp only [cancelRemove, hlook]
    split_ifs with hne
    · rw [hne, lookup_erase]
    · exact lookup_erase_ne hne

theorem removeIndex_lookup (ops : List (SaveItem V)) (t : Target) :
    (tablesOf ops).removeIndex.lookup t = openRemove (opsOn t ops) := by
  induction ops using List.reverseRecOn with
  | nil => rfl
  | append_singleton ops x ih =>
    rw [tablesOf_snoc, add]
    by_cases ht : x.target = t
    · rw [opsOn_snoc_self ht]
      cases hx : x.isRemove with
      | true =>
        rw [if_pos rfl, openRemove_remove _ hx]
        simp [addRemove, ht]
      | false =>
        rw [if_neg Bool.false_ne_true, openRemove_save _ hx]
        exact (removeIndex_cancelRemove _ t x.target).trans (if_pos ht.symm)
    · rw [opsOn_snoc_other ht, ← ih]
      split
      · exact lookup_insert_ne (Ne.symm ht)
      · exact (removeIndex_cancelRemove _ t x.target).trans (if_neg (Ne.symm ht))

theorem removeIndex_provenance (h : (tablesOf ops).removeIndex.lookup t = some rk) :
    rk.target t.id = t ∧ ∃ r ∈ ops, r.isRemove = true ∧ r.target = t := by
  rw [removeIndex_lookup] at h
  obtain ⟨r, hr, rfl⟩ := Option.map_eq_some_iff.mp h
  obtain ⟨hlast, hremove⟩ := Option.filter_eq_some_iff.mp hr
  obtain ⟨hmem, htarget⟩ : r ∈ ops ∧ r.target = t := mem_of_lastOp hlast
  exact ⟨htarget ▸ removeKeyOf_target r, r, hmem, hremove, htarget⟩

theorem mem_lastRun (h : x ∈ lastRun ops) : x ∈ ops ∧ x.isRemove = false :=
  ⟨(List.rtakeWhile_suffix _ _).subset h, by simpa using List.mem_rtakeWhile_imp h⟩

variable {w r : SaveItem V}

theorem saveMap_provenance (h : (tablesOf ops).saveMap.lookup t = some w) :
    w.target = t ∧ w.isRemove = false ∧ ∃ x ∈ ops, x.isRemove = false ∧ x.target = t := by
  rw [saveMap_lookup] at h
  have hrun (x : SaveItem V) (hx : x ∈ lastRun (opsOn t ops)) :
      x ∈ ops ∧ x.isRemove = false ∧ x.target = t := by
    obtain ⟨hon, hsave⟩ := mem_lastRun hx
    exact ⟨(List.mem_filter.mp hon).1, hsave, target_of_mem_opsOn hon⟩
  obtain ⟨htarget, hsave⟩ := mergeAll_save (fun x hx => ⟨(hrun x hx).2.2, (hrun x hx).2.1⟩) h
  have hne : lastRun (opsOn t ops) ≠ [] := by
    intro hnil
    rw [hnil] at h
    cases h
  obtain ⟨x, hx⟩ := List.exists_mem_of_ne_nil _ hne
  exact ⟨htarget, hsave, x, hrun x hx⟩

theorem saveMap_lookup_of_no_remove
    (hsaves : ∀ item ∈ ops, item.target = t → item.isRemove = false) :
    (tablesOf ops).saveMap.lookup t = mergeAll (ops.filter fun item => item.target = t) := by
  have hall : lastRun (opsOn t ops) = opsOn t ops := by
    refine List.rtakeWhile_eq_self_iff.mpr fun x hx => ?_
    simpa using hsaves x (List.mem_filter.mp hx).1 (target_of_mem_opsOn hx)
  rw [saveMap_lookup, hall]
  rfl

theorem dedup_last_remove (hlast : lastOp t ops = some r) (hremove : r.isRemove = true) :
    (tablesOf ops).saveMap.lookup t = none ∧ (tablesOf ops).HoldsRemove t r.stamps := by
  constructor
  · obtain ⟨before, heq⟩ := List.getLast?_eq_some_iff.mp hlast
    rw [saveMap_lookup, opsOn, heq, lastRun_remove before hremove]
    rfl
  induction ops using List.reverseRecOn with
  | nil => simp at hlast
  | append_singleton ops item ih =>
    rw [tablesOf_snoc, add]
    rw [lastOp_snoc] at hlast
    split_ifs at hlast with htarget
    · obtain rfl : item = r := by simpa using hlast
      rw [if_pos hremove, holdsRemove_addRemove_iff]
      exact .inr ⟨htarget, rfl⟩
    split
    · exact (holdsRemove_addRemove_iff _ _ _ _).mpr (.inl (ih hlast))
    · exact holdsRemove_cancelRemove_of_ne
        (fun rk hrk => (removeIndex_provenance hrk).1) (Ne.symm htarget) (ih hlast)

theorem dedup_keeps_removes (hops : SavesBeforeRemoves ops) (hr : r ∈ ops)
    (hremove : r.isRemove = true) : (tablesOf ops).HoldsRemove r.target r.stamps := by
  induction ops using List.reverseRecOn with
  | nil => simp at hr
  | append_singleton ops item ih =>
    obtain ⟨hhead, -, hcross⟩ := List.pairwise_append.mp hops
    rw [tablesOf_snoc]
    simp only [add]
    rcases List.mem_append.mp hr with hold | hnew
    · have hholds := ih hhead hold
      split_ifs with hsave
      · exact (holdsRemove_addRemove_iff _ _ _ _).mpr (.inl hholds)
      have hindex : (tablesOf ops).removeIndex.lookup item.target = none := by
        rw [Option.eq_none_iff_forall_ne_some]
        intro rk hrk
        obtain ⟨-, r', hr', hrem', htarget'⟩ := removeIndex_provenance hrk
        exact hsave (hcross r' hr' item (by simp) htarget' hrem')
      rwa [cancelRemove_of_lookup_none hindex]
    · obtain rfl : r = item := by simpa using hnew
      rw [if_pos hremove, holdsRemove_addRemove_iff]
      exact .inr ⟨rfl, rfl⟩

variable {entries : List (JournalEntry V)}

theorem mem_saves_iff :
    w ∈ (dedup entries).saves ↔ (tablesOf (opsOf entries)).saveMap.lookup w.target = some w := by
  have hperm := List.perm_insertionSort (fun a b : SaveItem V => a.target.less b.target)
    ((tablesOf (opsOf entries)).saveMap.entries.map Sigma.snd)
  simp only [dedup]
  rw [hperm.mem_iff, List.mem_map]
  constructor
  · rintro ⟨⟨t, x⟩, hmem, rfl⟩
    have hlook : (tablesOf (opsOf entries)).saveMap.lookup t = some x := mem_lookup_iff.mpr hmem
    rwa [(saveMap_provenance hlook).1]
  · intro hlook
    exact ⟨⟨w.target, w⟩, mem_lookup_iff.mp hlook, rfl⟩

theorem dedup_keeps_save (hx : x ∈ opsOf entries)
    (hsaves : ∀ item ∈ opsOf entries, item.target = x.target → item.isRemove = false) :
    ∃ w ∈ (dedup entries).saves, w.target = x.target ∧ x.stamps ⊆ w.stamps := by
  have hmem : x ∈ (opsOf entries).filter fun item => item.target = x.target := by
    simpa using hx
  obtain ⟨w, hw, hsub⟩ := mergeAll_stamps hmem
  rw [← saveMap_lookup_of_no_remove hsaves] at hw
  have htarget := (saveMap_provenance hw).1
  refine ⟨w, ?_, htarget, hsub⟩
  rwa [mem_saves_iff, htarget]

theorem saves_nodup (entries : List (JournalEntry V)) :
    ((dedup entries).saves.map SaveItem.target).Nodup := by
  have hperm := List.perm_insertionSort (fun a b : SaveItem V => a.target.less b.target)
    ((tablesOf (opsOf entries)).saveMap.entries.map Sigma.snd)
  have hkeys : ((tablesOf (opsOf entries)).saveMap.entries.map Sigma.snd).map
      SaveItem.target = (tablesOf (opsOf entries)).saveMap.keys := by
    rw [List.map_map]
    simp only [keys, List.keys]
    apply List.map_congr_left
    rintro ⟨t, x⟩ hmem
    exact (saveMap_provenance (mem_lookup_iff.mpr hmem)).1
  simp only [dedup]
  rw [(hperm.map SaveItem.target).nodup_iff, hkeys]
  exact keys_nodup _

theorem countP_removeID (ids : List RemoveId) (target id : Int) :
    (removeID ids target).countP (fun r => r.id = id) =
      ids.countP (fun r => r.id = id) - if target = id then 1 else 0 := by
  induction ids with
  | nil => simp [removeID]
  | cons r ids ih =>
    rcases eq_or_ne r.id target with rfl | hr
    · by_cases hid : r.id = id <;> simp [removeID, hid]
    rw [removeID, if_neg hr, List.countP_cons, List.countP_cons, ih]
    by_cases hid : r.id = id
    · simp [hid, hid ▸ Ne.symm hr]
    · simp [hid]

theorem countP_idsOf (ops : List (SaveItem V)) (hrk : rk.target t.id = t) :
    ((tablesOf ops).idsOf rk).countP (fun r => r.id = t.id) = (waiting (opsOn t ops)).count rk := by
  induction ops using List.reverseRecOn with
  | nil => rfl
  | append_singleton ops x ih =>
    rw [tablesOf_snoc, add]
    by_cases ht : x.target = t
    · rw [opsOn_snoc_self ht]
      cases hx : x.isRemove with
      | true =>
        rw [if_pos rfl, waiting_remove _ hx, idsOf_addRemove, List.countP_append,
          List.count_append, ih]
        by_cases hkey : rk = removeKeyOf x
        · simp [← hkey, ht]
        · simp [hkey, Ne.symm hkey]
      | false =>
        rw [if_neg Bool.false_ne_true, waiting_save _ hx]
        change ((((tablesOf ops).cancelRemove x.target).idsOf rk).countP _) = _
        rw [idsOf_cancelRemove, ht, removeIndex_lookup]
        split_ifs with hopen
        · rw [countP_removeID, ih]
          simp [waiting, hopen]
        rw [ih, waiting, List.count_append]
        cases hlast : openRemove (opsOn t ops) with
        | none => simp
        | some rk' =>
          have hne : rk' ≠ rk := by
            intro heq
            exact hopen (heq ▸ hlast)
          simp [hne]
    · rw [opsOn_snoc_other ht, ← ih]
      split
      · rw [idsOf_addRemove, List.countP_append]
        split
        · -- the same key holds the ids of other documents
          rename_i hkey
          have hid : x.target.id ≠ t.id := by
            intro heq
            apply ht
            rw [← hrk, hkey, ← heq, removeKeyOf_target]
          simp [hid]
        · simp
      · change ((((tablesOf ops).cancelRemove x.target).idsOf rk).countP _) = _
        rw [idsOf_cancelRemove]
        split_ifs with hlook
        · have hid : x.target.id ≠ t.id := by
            intro heq
            apply ht
            rw [← hrk, ← heq]
            exact ((removeIndex_provenance hlook).1).symm
          rw [countP_removeID, if_neg hid]
          rfl
        · rfl

theorem holdsRemove_iff_waiting (ops : List (SaveItem V)) (t : Target) :
    (∃ st, (tablesOf ops).HoldsRemove t st) ↔ waiting (opsOn t ops) ≠ [] := by
  constructor
  · rintro ⟨st, rk, ids, hlook, r, hr, htarget, -⟩
    have hid : r.id = t.id := by rw [← htarget]; rfl
    have hrk : rk.target t.id = t := by rw [← hid, htarget]
    have hcount := countP_idsOf ops hrk
    have hpos : 0 < ((tablesOf ops).idsOf rk).countP (fun r => r.id = t.id) := by
      rw [List.countP_pos_iff]
      exact ⟨r, by simpa [idsOf, hlook] using hr, by simpa using hid⟩
    rw [hcount] at hpos
    exact List.ne_nil_of_mem (List.count_pos_iff.mp hpos)
  · intro hne
    obtain ⟨rk, hmem⟩ := List.exists_mem_of_ne_nil _ hne
    obtain ⟨x, hx, -, hkey⟩ := exists_of_mem_waiting hmem
    have hrk : rk.target t.id = t := by
      rw [← hkey, ← target_of_mem_opsOn hx, removeKeyOf_target]
    have hpos := List.count_pos_iff.mpr hmem
    rw [← countP_idsOf ops hrk, List.countP_pos_iff] at hpos
    obtain ⟨r, hr, hid⟩ := hpos
    have hid : r.id = t.id := by simpa using hid
    cases hlook : (tablesOf ops).removes.lookup rk with
    | none => simp [idsOf, hlook] at hr
    | some ids =>
      refine ⟨r.stamps, rk, ids, hlook, r, ?_, by rw [hid, hrk], rfl⟩
      simpa [idsOf, hlook] using hr

end CubeCore.KeptOperations
