import CubeCore.JournalQueue
import Mathlib.Data.List.Induction
import Mathlib.Data.List.Sort

namespace CubeCore.BatchDedup

open SaveItems JournalQueue List

variable {V : Type}

/-- Removes are grouped by database, collection and ownership generation. -/
structure RemoveKey where
  db : String
  dbScope : DatabaseScope
  coll : String
  fence : Nat
  ownerSid : Int
  shared : Bool
deriving DecidableEq, Repr

def RemoveKey.target (rk : RemoveKey) (id : Int) : Target :=
  ⟨rk.db, rk.dbScope, rk.coll, id⟩

/-- A removed id. The stamps are ghost data, as in `SaveItem`. -/
structure RemoveId where
  id : Int
  stamps : List Nat
deriving DecidableEq, Repr

def removeKeyOf (item : SaveItem V) : RemoveKey where
  db := item.target.db
  dbScope := item.target.dbScope
  coll := item.target.collection
  fence := item.fence
  ownerSid := item.ownerSid
  shared := item.shared

@[simp] theorem removeKeyOf_target (item : SaveItem V) :
    (removeKeyOf item).target item.target.id = item.target := rfl

/-- `removeID` drops the first occurrence only. -/
def removeID : List RemoveId → Int → List RemoveId
  | [], _ => []
  | r :: ids, target => if r.id = target then ids else r :: removeID ids target

/-- The three maps `dedup` fills while it walks over a batch. -/
structure Tables (V : Type) where
  saveMap : AList fun _ : Target => SaveItem V
  removes : AList fun _ : RemoveKey => List RemoveId
  removeIndex : AList fun _ : Target => RemoveKey

open Tables

def Tables.empty : Tables V := ⟨∅, ∅, ∅⟩

variable (tb : Tables V)

def Tables.idsOf (rk : RemoveKey) : List RemoveId :=
  (tb.removes.lookup rk).getD []

def Tables.addRemove (item : SaveItem V) : Tables V :=
  let rk := removeKeyOf item
  { saveMap := tb.saveMap.erase item.target
    removes := tb.removes.insert rk
      (tb.idsOf rk ++ [⟨item.target.id, item.stamps⟩])
    removeIndex := tb.removeIndex.insert item.target rk }

/-- A save after a tombstone cancels the remove the index points to. -/
def Tables.cancelRemove (t : Target) : Tables V :=
  match tb.removeIndex.lookup t with
  | none => tb
  | some rk =>
    let ids := removeID (tb.idsOf rk) t.id
    { tb with
      removes := if ids = [] then tb.removes.erase rk
        else tb.removes.insert rk ids
      removeIndex := tb.removeIndex.erase t }

def Tables.addSave (item : SaveItem V) : Tables V :=
  { tb with
    saveMap := tb.saveMap.insert item.target
      (match tb.saveMap.lookup item.target with
      | some existing => mergeSaveItem existing item
      | none => item) }

def Tables.add (item : SaveItem V) : Tables V :=
  if item.isRemove then tb.addRemove item
  else (tb.cancelRemove item.target).addSave item

def tablesOf (ops : List (SaveItem V)) : Tables V :=
  ops.foldl Tables.add Tables.empty

/-- What a worker has to write. Go ranges over the removes in any order, which the steps choose. -/
structure Batch (V : Type) where
  saves : List (SaveItem V)
  removes : List (RemoveKey × List RemoveId)
deriving DecidableEq

def dedup (entries : List (JournalEntry V)) : Batch V where
  saves := ((tablesOf (opsOf entries)).saveMap.entries.map Sigma.snd).insertionSort
    fun a b => a.target.less b.target
  removes := (tablesOf (opsOf entries)).removes.entries.map fun e => (e.1, e.2)

theorem tablesOf_snoc (ops : List (SaveItem V)) (item : SaveItem V) :
    tablesOf (ops ++ [item]) = (tablesOf ops).add item := by
  simp [tablesOf]

@[simp] theorem cancelRemove_saveMap (t : Target) : (tb.cancelRemove t).saveMap = tb.saveMap := by
  simp only [cancelRemove]
  split <;> rfl

variable {tb : Tables V} {t : Target}

theorem cancelRemove_of_lookup_none (h : tb.removeIndex.lookup t = none) :
    tb.cancelRemove t = tb := by
  simp [cancelRemove, h]

theorem removeID_eq_eraseP (ids : List RemoveId) (target : Int) :
    removeID ids target = ids.eraseP fun r => r.id = target := by
  induction ids with
  | nil => rfl
  | cons r ids ih => simp [removeID, eraseP_cons, ih]

theorem idsOf_addRemove (tb : Tables V) (x : SaveItem V) (rk : RemoveKey) :
    (tb.addRemove x).idsOf rk =
      tb.idsOf rk ++ if rk = removeKeyOf x then [⟨x.target.id, x.stamps⟩] else [] := by
  by_cases hrk : rk = removeKeyOf x
  · subst hrk
    simp [addRemove, idsOf]
  · simp [addRemove, idsOf, hrk]

theorem idsOf_cancelRemove (tb : Tables V) (t : Target) (rk : RemoveKey) :
    (tb.cancelRemove t).idsOf rk =
      if tb.removeIndex.lookup t = some rk then removeID (tb.idsOf rk) t.id else tb.idsOf rk := by
  cases hlook : tb.removeIndex.lookup t with
  | none =>
    rw [cancelRemove_of_lookup_none hlook]
    simp
  | some rk' =>
    simp only [cancelRemove, hlook, Option.some.injEq]
    rcases eq_or_ne rk' rk with rfl | hrk
    · rw [if_pos rfl]
      split_ifs with hnil
      · rw [hnil]
        simp [idsOf]
      · simp [idsOf]
    have hne : rk ≠ rk' := Ne.symm hrk
    split
    · simp [idsOf, AList.lookup_erase_ne hne]
    · simp [idsOf, AList.lookup_insert_ne hne]

/-- A remove of `t` with stamp list `st` waits in the tables. -/
def Tables.HoldsRemove (tb : Tables V) (t : Target) (st : List Nat) : Prop :=
  ∃ rk ids, tb.removes.lookup rk = some ids ∧
    ∃ r ∈ ids, rk.target r.id = t ∧ r.stamps = st

variable {st : List Nat}

theorem holdsRemove_iff :
    tb.HoldsRemove t st ↔ ∃ rk, ∃ r ∈ tb.idsOf rk, rk.target r.id = t ∧ r.stamps = st := by
  constructor
  · rintro ⟨rk, ids, hlook, r, hr, hfacts⟩
    exact ⟨rk, r, by simpa [idsOf, hlook] using hr, hfacts⟩
  rintro ⟨rk, r, hr, hfacts⟩
  cases hlook : tb.removes.lookup rk with
  | none => simp [idsOf, hlook] at hr
  | some ids => exact ⟨rk, ids, hlook, r, by simpa [idsOf, hlook] using hr, hfacts⟩

theorem holdsRemove_of_cancelRemove (h : (tb.cancelRemove t').HoldsRemove t st) :
    tb.HoldsRemove t st := by
  obtain ⟨rk, r, hr, hfacts⟩ := holdsRemove_iff.mp h
  refine holdsRemove_iff.mpr ⟨rk, r, ?_, hfacts⟩
  rw [idsOf_cancelRemove, removeID_eq_eraseP] at hr
  split at hr
  · exact mem_of_mem_eraseP hr
  · exact hr

theorem holdsRemove_cancelRemove_of_ne
    (hindex : ∀ rk, tb.removeIndex.lookup t' = some rk → rk.target t'.id = t') (hne : t ≠ t')
    (h : tb.HoldsRemove t st) : (tb.cancelRemove t').HoldsRemove t st := by
  obtain ⟨rk, r, hr, htarget, hst⟩ := holdsRemove_iff.mp h
  refine holdsRemove_iff.mpr ⟨rk, r, ?_, htarget, hst⟩
  rw [idsOf_cancelRemove, removeID_eq_eraseP]
  split
  · -- the cancelled id is that of `t'`, so `r` is another one
    rename_i hlook
    have hid : r.id ≠ t'.id := by
      intro heq
      apply hne
      rw [← htarget, heq, hindex rk hlook]
    exact (mem_eraseP_of_neg (by simpa using hid)).mpr hr
  · exact hr

theorem holdsRemove_addRemove_iff (tb : Tables V) (item : SaveItem V) (t : Target) (st : List Nat) :
    (tb.addRemove item).HoldsRemove t st ↔
      tb.HoldsRemove t st ∨ (item.target = t ∧ item.stamps = st) := by
  simp only [holdsRemove_iff, idsOf_addRemove, mem_append]
  constructor
  · rintro ⟨rk, r, hr | hr, hfacts⟩
    · exact .inl ⟨rk, r, hr, hfacts⟩
    split_ifs at hr with hkey
    · obtain rfl := mem_singleton.mp hr
      subst hkey
      exact .inr hfacts
    · cases hr
  · rintro (⟨rk, r, hr, hfacts⟩ | ⟨rfl, rfl⟩)
    · exact ⟨rk, r, .inl hr, hfacts⟩
    · exact ⟨_, _, .inr (by rw [if_pos rfl]; exact mem_singleton_self _), rfl, rfl⟩

variable {ops : List (SaveItem V)}

theorem exists_remove_of_holdsRemove (h : (tablesOf ops).HoldsRemove t st) :
    ∃ r ∈ ops, r.isRemove = true ∧ r.target = t ∧ r.stamps = st := by
  induction ops using reverseRecOn with
  | nil =>
    obtain ⟨rk, ids, hlook, -⟩ := h
    cases hlook
  | append_singleton ops item ih =>
    rw [tablesOf_snoc, add] at h
    split_ifs at h with hremove
    · rcases (holdsRemove_addRemove_iff _ item t st).mp h with hold | ⟨ht, hst⟩
      · obtain ⟨r, hr, hfacts⟩ := ih hold
        exact ⟨r, mem_append_left _ hr, hfacts⟩
      · exact ⟨item, by simp, hremove, ht, hst⟩
    · obtain ⟨r, hr, hfacts⟩ := ih (holdsRemove_of_cancelRemove h)
      exact ⟨r, mem_append_left _ hr, hfacts⟩

/-- The last item of a list that is about `t`. -/
def lastOp (t : Target) (ops : List (SaveItem V)) : Option (SaveItem V) :=
  (ops.filter fun item => item.target = t).getLast?

@[simp] theorem lastOp_nil (t : Target) : lastOp t ([] : List (SaveItem V)) = none := rfl

theorem lastOp_append (t : Target) (xs ys : List (SaveItem V)) :
    lastOp t (xs ++ ys) = (lastOp t ys).or (lastOp t xs) := by
  simp [lastOp, getLast?_append]

theorem lastOp_snoc (t : Target) (ops : List (SaveItem V)) (item : SaveItem V) :
    lastOp t (ops ++ [item]) = if item.target = t then some item else lastOp t ops := by
  rcases eq_or_ne item.target t with h | h
  · simp [lastOp, h]
  · simp [lastOp, h]

theorem mem_of_lastOp (h : lastOp t ops = some item) :
    item ∈ ops ∧ item.target = t := by
  simpa using mem_of_getLast? h

theorem lastOp_eq_none_iff : lastOp t ops = none ↔ ∀ item ∈ ops, item.target ≠ t := by
  simp [lastOp]

/-- No save of a target follows a remove of it. -/
def SavesBeforeRemoves (ops : List (SaveItem V)) : Prop :=
  ops.Pairwise fun a b => a.target = b.target → a.isRemove = true → b.isRemove = true

def mergeAll (items : List (SaveItem V)) : Option (SaveItem V) :=
  items.foldl
    (fun acc item => some (match acc with
      | some existing => mergeSaveItem existing item
      | none => item))
    none

theorem mergeAll_snoc (items : List (SaveItem V)) (item : SaveItem V) :
    mergeAll (items ++ [item]) = some (match mergeAll items with
      | some existing => mergeSaveItem existing item
      | none => item) := by
  simp [mergeAll]

theorem mergeAll_save {w : SaveItem V} (hrun : ∀ x ∈ run, x.target = t ∧ x.isRemove = false)
    (h : mergeAll run = some w) : w.target = t ∧ w.isRemove = false := by
  induction run using reverseRecOn generalizing w with
  | nil => cases h
  | append_singleton run x ih =>
    obtain ⟨ht, hx⟩ := hrun x (by simp)
    rw [mergeAll_snoc, Option.some.injEq] at h
    subst h
    split
    · rename_i existing hexisting
      have hold := ih (fun y hy => hrun y (mem_append_left _ hy)) hexisting
      exact ⟨(mergeSaveItem_target (hold.1.trans ht.symm)).trans ht, mergeSaveItem_isRemove hx⟩
    · exact ⟨ht, hx⟩

theorem mergeAll_stamps {x : SaveItem V} (hx : x ∈ items) :
    ∃ w, mergeAll items = some w ∧ x.stamps ⊆ w.stamps := by
  induction items using reverseRecOn with
  | nil => simp at hx
  | append_singleton items item ih =>
    rw [mergeAll_snoc]
    refine ⟨_, rfl, ?_⟩
    rcases mem_append.mp hx with hold | hnew
    · obtain ⟨w, hw, hsub⟩ := ih hold
      simp only [hw, mergeSaveItem_stamps]
      exact fun n hn => mem_append_left _ (hsub hn)
    obtain rfl : x = item := by simpa using hnew
    split
    · rw [mergeSaveItem_stamps]
      exact subset_append_right _ _
    · exact fun n hn => hn

variable {entries : List (JournalEntry V)}

/-- A list of grouped removes holds a remove of `t` with stamp list `st`. -/
def HoldsRemove (removes : List (RemoveKey × List RemoveId)) (t : Target)
    (st : List Nat) : Prop :=
  ∃ group ∈ removes, ∃ r ∈ group.2, group.1.target r.id = t ∧ r.stamps = st

theorem holdsRemove_dedup_iff :
    HoldsRemove (dedup entries).removes t st ↔ (tablesOf (opsOf entries)).HoldsRemove t st := by
  simp only [HoldsRemove, Tables.HoldsRemove, dedup, mem_map]
  constructor
  · rintro ⟨group, ⟨e, he, rfl⟩, r, hr, hfacts⟩
    exact ⟨e.1, e.2, AList.mem_lookup_iff.mpr he, r, hr, hfacts⟩
  · rintro ⟨rk, ids, hlook, r, hr, hfacts⟩
    exact ⟨(rk, ids), ⟨⟨rk, ids⟩, AList.mem_lookup_iff.mp hlook, rfl⟩, r, hr, hfacts⟩

end CubeCore.BatchDedup
