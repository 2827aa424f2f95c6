import Mathlib.Algebra.GroupWithZero.Nat
import Mathlib.Data.List.AList

namespace CubeCore.SaveItems

abbrev Bytes := List UInt8

inductive SaveMode where
  | full
  | patch
deriving DecidableEq, Repr

inductive DatabaseScope where
  | global
  | server
deriving DecidableEq, Repr

def DatabaseScope.toNat : DatabaseScope → Nat
  | .global => 0
  | .server => 1

/-- The document an item is about: `Db`, `DbScope`, `Collection` and `ID`. -/
structure Target where
  db : String
  dbScope : DatabaseScope
  collection : String
  id : Int
deriving DecidableEq, Repr

/-- The comparison `dedup` sorts its saves by. -/
def Target.less (a b : Target) : Bool :=
  if a.db ≠ b.db then decide (a.db < b.db)
  else if a.dbScope ≠ b.dbScope then decide (a.dbScope.toNat < b.dbScope.toNat)
  else if a.collection ≠ b.collection then decide (a.collection < b.collection)
  else decide (a.id < b.id)

/-- `V` stands for the values of Go's `map[string]any`, immutable once an item is frozen. -/
structure PersistPatch (V : Type) where
  set : AList fun _ : String => V
  unset : List String
  fullData : Bytes

variable {V : Type}

-- Stated through the entries, so that it evaluates.
instance [DecidableEq V] : DecidableEq (PersistPatch V) := fun p q =>
  decidable_of_iff (p.set.entries = q.set.entries ∧ p.unset = q.unset ∧
      p.fullData = q.fullData)
    ⟨fun ⟨hset, hunset, hdata⟩ => by
      cases p
      cases q
      simp only [PersistPatch.mk.injEq]
      exact ⟨AList.ext hset, hunset, hdata⟩,
    fun h => h ▸ ⟨rfl, rfl, rfl⟩⟩

namespace PersistPatch

def none : PersistPatch V := ⟨∅, [], []⟩

def empty (p : PersistPatch V) : Bool :=
  p.set.entries.isEmpty && p.unset.isEmpty

def sizeHint (p : PersistPatch V) : Nat :=
  p.fullData.length
    + (p.set.keys.map fun k => k.utf8ByteSize + 16).sum
    + (p.unset.map fun k => k.utf8ByteSize + 8).sum

/-- `Freeze`: the copy succeeds unless a value cannot be made immutable. -/
def freeze (freezable : V → Bool) (p : PersistPatch V) : Option (PersistPatch V) :=
  if p.set.entries.all fun kv => freezable kv.2 then some p else Option.none

def removeString (items : List String) (target : String) : List String :=
  items.filter (· ≠ target)

/-- Values set later win, and setting a field cancels an earlier unset of it. -/
def merge (p next : PersistPatch V) : PersistPatch V where
  fullData := if next.fullData = [] then p.fullData else next.fullData
  set := next.set ∪ next.unset.foldl (fun m k => m.erase k) p.set
  unset := next.set.keys.foldl removeString (p.unset ++ next.unset)

end PersistPatch

/-- One dirty tracker and the mask an item took from it. -/
structure SaveTarget where
  tracker : Option Nat
  mask : UInt64
deriving DecidableEq

/-- Trackers, Go pointers, are numbers; `data = []` is the nil slice. `stamps` is ghost data: the
admission numbers of the items merged into this one. -/
structure SaveItem (V : Type) where
  target : Target
  version : Nat
  fence : Nat
  ownerSid : Int
  shared : Bool
  mask : UInt64
  mode : SaveMode
  data : Bytes
  patch : PersistPatch V
  tracker : Option Nat
  targets : List SaveTarget
  stamps : List Nat
deriving DecidableEq

structure SaveOp (V : Type) where
  target : Target
  version : Nat
  fence : Nat
  ownerSid : Int
  shared : Bool
  mask : UInt64
  mode : SaveMode
  data : Bytes
  patch : PersistPatch V

namespace SaveItem

def full (t : Target) (version : Nat) (data : Bytes) : SaveItem V :=
  ⟨t, version, 0, 0, false, 0, .full, data, .none, none, [], []⟩

def stamp (item : SaveItem V) (n : Nat) : SaveItem V :=
  { item with stamps := [n] }

/-- Version zero without data signals a removal. -/
def isRemove (item : SaveItem V) : Bool :=
  item.version = 0 && item.data.isEmpty

def toOp (item : SaveItem V) : SaveOp V where
  target := item.target
  version := item.version
  fence := item.fence
  ownerSid := item.ownerSid
  shared := item.shared
  mask := item.mask
  mode := item.mode
  data := item.data
  patch := item.patch

def sizeHint (item : SaveItem V) : Nat :=
  item.data.length + if item.mode = .patch then item.patch.sizeHint else 0

end SaveItem

/-- A patch that cannot be frozen becomes a full write of its fallback. -/
def freezeSaveItem (freezable : V → Bool) (item : SaveItem V) : SaveItem V :=
  if item.mode ≠ .patch ∨ item.patch.empty then
    { item with patch := .none }
  else
    match item.patch.freeze freezable with
    | some patch => { item with patch := patch }
    | none =>
      { item with
        mode := .full
        patch := .none
        data := if item.data = [] then item.patch.fullData else item.data }

def appendSaveTargets (targets : List SaveTarget) (item : SaveItem V) : List SaveTarget :=
  if item.targets ≠ [] then targets ++ item.targets
  else if item.tracker ≠ none ∧ item.mask ≠ 0 then
    targets ++ [⟨item.tracker, item.mask⟩]
  else targets

def mergeSaveTargets (existing next : SaveItem V) : List SaveTarget :=
  appendSaveTargets (appendSaveTargets [] existing) next

/-- The larger version, or the second of equal ones, decides everything but the patch: two patches
are merged. -/
def mergeSaveItem (existing next : SaveItem V) : SaveItem V :=
  if existing.version ≤ next.version then
    { next with
      targets := mergeSaveTargets existing next
      mask := next.mask ||| existing.mask
      tracker := if next.tracker = none then existing.tracker else next.tracker
      patch :=
        if next.mode = .patch ∧ existing.mode = .patch then
          existing.patch.merge next.patch
        else next.patch
      data := if next.data = [] then existing.data else next.data
      stamps := existing.stamps ++ next.stamps }
  else
    { existing with
      targets := mergeSaveTargets existing next
      mask := existing.mask ||| next.mask
      patch :=
        if existing.mode = .patch ∧ next.mode = .patch then
          next.patch.merge existing.patch
        else existing.patch
      data := if existing.data = [] then next.data else existing.data
      stamps := existing.stamps ++ next.stamps }

@[simp] theorem mergeSaveItem_stamps (existing next : SaveItem V) :
    (mergeSaveItem existing next).stamps = existing.stamps ++ next.stamps := by
  unfold mergeSaveItem
  split <;> rfl

variable {existing next : SaveItem V}

theorem mergeSaveItem_target (h : existing.target = next.target) :
    (mergeSaveItem existing next).target = next.target := by
  unfold mergeSaveItem
  split
  · rfl
  · exact h

theorem mergeSaveItem_isRemove (hnext : next.isRemove = false) :
    (mergeSaveItem existing next).isRemove = false := by
  unfold mergeSaveItem
  unfold SaveItem.isRemove at *
  split
  · by_cases hd : next.data = []
    · have hv : next.version ≠ 0 := by
        intro h0
        simp [h0, hd] at hnext
      simp [hv]
    · simp [hd]
  · have hv : existing.version ≠ 0 := by omega
    simp [hv]

end CubeCore.SaveItems
