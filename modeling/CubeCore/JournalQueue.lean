import CubeCore.SaveItems

namespace CubeCore.JournalQueue

open SaveItems

variable {V : Type}

/-- The items of one guard release. -/
structure JournalEntry (V : Type) where
  items : List (SaveItem V)
deriving DecidableEq

/-- The bounded queue between entity release and the flusher. -/
structure Journal (V : Type) where
  entries : List (JournalEntry V)
  closed : Bool
  cap : Nat

namespace Journal

/-- `NewJournal` with its default capacity. -/
def new (cap : Nat) : Journal V :=
  ⟨[], false, if cap = 0 then 10000 else cap⟩

variable (j : Journal V)

/-- `Push` waits while the journal is full, and returns false once it is closed. -/
def push (items : List (SaveItem V)) : Option (Journal V) :=
  if items = [] then some j
  else if j.closed ∨ j.cap ≤ j.entries.length then none
  else some { j with entries := j.entries ++ [⟨items⟩] }

/-- Put entries that could not be persisted back in front. A closed journal
refuses them. -/
def pushFront (entries : List (JournalEntry V)) : Journal V × Bool :=
  if entries = [] then (j, true)
  else if j.closed then (j, false)
  else ({ j with entries := entries ++ j.entries }, true)

/-- Take up to `max` entries, all of them if `max` is zero. -/
def tryPopBatch (max : Nat) : List (JournalEntry V) × Journal V :=
  let n := if max = 0 ∨ j.entries.length < max then j.entries.length else max
  (j.entries.take n, { j with entries := j.entries.drop n })

def drainAll : List (JournalEntry V) × Journal V :=
  (j.entries, { j with entries := [] })

def close : Journal V :=
  { j with closed := true }

variable {j j' : Journal V} {items : List (SaveItem V)}

theorem opsOf_push (h : j.push items = some j') :
    j'.entries.flatMap JournalEntry.items = j.entries.flatMap JournalEntry.items ++ items := by
  simp only [push] at h
  split at h
  · rename_i hnil
    obtain rfl : j = j' := by simpa using h
    simp [hnil]
  · split_ifs at h
    cases h
    simp

theorem closed_push (h : j.push items = some j') : j'.closed = j.closed := by
  simp only [push] at h
  split at h
  · rw [Option.some.inj h]
  · split_ifs at h
    rw [← Option.some.inj h]

theorem entries_of_push (h : j.push items = some j') (hempty : j'.entries = []) :
    j.entries = [] := by
  simp only [push] at h
  split at h
  · rwa [Option.some.inj h]
  · split_ifs at h
    rw [← Option.some.inj h] at hempty
    simp at hempty

theorem closed_pushFront (j : Journal V) (entries : List (JournalEntry V)) :
    (j.pushFront entries).1.closed = j.closed := by
  simp only [pushFront]
  split
  · rfl
  · split <;> rfl

theorem tryPopBatch_append (j : Journal V) (max : Nat) :
    (j.tryPopBatch max).1 ++ (j.tryPopBatch max).2.entries = j.entries :=
  List.take_append_drop _ _

end Journal

def opsOf (entries : List (JournalEntry V)) : List (SaveItem V) :=
  entries.flatMap JournalEntry.items

@[simp] theorem opsOf_nil : opsOf ([] : List (JournalEntry V)) = [] := rfl

@[simp] theorem opsOf_append (xs ys : List (JournalEntry V)) :
    opsOf (xs ++ ys) = opsOf xs ++ opsOf ys := by
  simp [opsOf]

theorem opsOf_tryPopBatch (j : Journal V) (max : Nat) :
    opsOf j.entries = opsOf (j.tryPopBatch max).1 ++ opsOf (j.tryPopBatch max).2.entries := by
  rw [← opsOf_append, Journal.tryPopBatch_append]

theorem Journal.opsOf_pushFront {j : Journal V} (h : j.closed = false)
    (entries : List (JournalEntry V)) :
    opsOf (j.pushFront entries).1.entries = opsOf entries ++ opsOf j.entries := by
  simp only [Journal.pushFront, h]
  split
  · rename_i hnil
    rw [hnil]
    rfl
  · simp

theorem mem_opsOf_of_perm (h : xs.Perm ys) : item ∈ opsOf xs ↔ item ∈ opsOf ys := by
  simp only [opsOf, List.mem_flatMap]
  exact ⟨fun ⟨e, he, hi⟩ => ⟨e, h.mem_iff.mp he, hi⟩, fun ⟨e, he, hi⟩ => ⟨e, h.mem_iff.mpr he, hi⟩⟩

end CubeCore.JournalQueue
