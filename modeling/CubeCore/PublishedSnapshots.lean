import CubeCore.ReplicationSnapshot

namespace CubeCore.PublishedSnapshots

open Checked ReplicationSnapshot List

abbrev TickIndex := AList fun _ : UInt32 => Int

structure SnapshotRing where
  capacity : Nat
  items : List Snapshot
  byTick : TickIndex
  latest : UInt32

def newSnapshotRing (capacity : Int) : SnapshotRing where
  capacity := (orDefault capacity 64).toNat
  items := []
  byTick := ∅
  latest := 0

def shiftIndex (entry : Σ _ : UInt32, Int) : Σ _ : UInt32, Int :=
  ⟨entry.1, entry.2 - 1⟩

/-- The loop of `Add` that moves every index down. -/
def shiftIndices (m : TickIndex) : TickIndex where
  entries := m.entries.map shiftIndex
  nodupKeys := by
    have hkeys : (m.entries.map shiftIndex).keys = m.entries.keys := map_map
    rw [List.NodupKeys, hkeys]
    exact m.nodupKeys

variable (r : SnapshotRing)

def dropOldest : SnapshotRing :=
  match r.items with
  | [] => r
  | oldest :: rest =>
    { r with items := rest, byTick := shiftIndices (r.byTick.erase oldest.tick) }

def append (snapshot : Snapshot) : SnapshotRing :=
  { r with
    items := r.items ++ [snapshot]
    byTick := r.byTick.insert snapshot.tick r.items.length
    latest := snapshot.tick }

def add (snapshot : Snapshot) : Except ReplicationError SnapshotRing := do
  snapshot.validate
  rejectIf (r.latest ≠ 0 ∧ snapshot.tick ≤ r.latest) .baselineMismatch
  return append (if r.items.length = r.capacity then dropOldest r else r) snapshot

def getLatest : Option Snapshot :=
  r.items.getLast?

theorem add_eq_ok {snapshot : Snapshot} {r r'} (h : add r snapshot = .ok r') :
    getLatest r' = some snapshot ∧ r'.latest = snapshot.tick ∧
      (r.latest ≠ 0 → r.latest < snapshot.tick) := by
  simp only [add, bind_eq_ok, exists_unit, rejectIf_eq_ok, pure_eq_ok] at h
  obtain ⟨-, hlatest, rfl⟩ := h
  refine ⟨by simp [getLatest, append], rfl, fun hne => ?_⟩
  push Not at hlatest
  exact UInt32.not_le.mp fun hle => hlatest hne hle

def get (tick : UInt32) : Option Snapshot :=
  if tick = 0 then none
  else (r.byTick.lookup tick).bind fun index =>
    if index < 0 ∨ r.items.length ≤ index then none else r.items[index.toNat]?

def reset : SnapshotRing := { r with items := [], byTick := ∅, latest := 0 }

inductive Call
  | add (snapshot : Snapshot)
  | reset

/-- A ring with the snapshots it has accepted since its last reset. -/
structure History where
  ring : SnapshotRing
  accepted : List Snapshot

def History.call (h : History) : Call → History
  | .add snapshot =>
    match add h.ring snapshot with
    | .ok ring => ⟨ring, h.accepted ++ [snapshot]⟩
    | .error _ => h
  | .reset => ⟨reset h.ring, []⟩

def Indexed (r : SnapshotRing) : Prop :=
  ∀ tick, r.byTick.lookup tick = (r.items.findIdx? (·.tick = tick)).map (↑)

structure History.Ok (size : Nat) (h : History) : Prop where
  capacity : h.ring.capacity = size
  indexed : Indexed h.ring
  suffix : h.ring.items <:+ h.accepted
  length : h.ring.items.length = min h.accepted.length size
  increasing : h.accepted.Pairwise (·.tick < ·.tick)
  latest : ∀ s ∈ h.accepted, s.tick ≠ 0 ∧ s.tick ≤ h.ring.latest

variable {r} {s : Snapshot}

theorem findIdx?_tick {items : List Snapshot} {tick : UInt32} (h : ∀ s ∈ items, s.tick ≠ tick) :
    items.findIdx? (·.tick = tick) = none := by
  simpa using h

theorem Indexed.append (hindexed : Indexed r) (hlt : ∀ s' ∈ r.items, s'.tick < s.tick) :
    Indexed (append r s) := by
  intro tick
  simp only [PublishedSnapshots.append, findIdx?_append]
  rcases eq_or_ne tick s.tick with rfl | hne
  · rw [findIdx?_tick fun s' hs => UInt32.ne_of_lt (hlt s' hs)]
    simp
  · simp [AList.lookup_insert_ne hne, hindexed tick, hne.symm]

theorem lookup_shiftIndices (m : TickIndex) (tick : UInt32) :
    (shiftIndices m).lookup tick = (m.lookup tick).map (· - 1) :=
  dlookup_map₂ (f := fun _ (i : Int) => i - 1) tick

theorem Indexed.dropOldest (hindexed : Indexed r) (hsorted : r.items.Pairwise (·.tick < ·.tick)) :
    Indexed (dropOldest r) ∧ (dropOldest r).items = r.items.tail ∧
      (dropOldest r).capacity = r.capacity := by
  fun_cases PublishedSnapshots.dropOldest r with
  | case1 hitems => exact ⟨hindexed, by simp [hitems], rfl⟩
  | case2 oldest rest hitems =>
    rw [hitems, pairwise_cons] at hsorted
    refine ⟨fun tick => ?_, by simp [hitems], rfl⟩
    rw [lookup_shiftIndices]
    rcases eq_or_ne tick oldest.tick with rfl | hne
    · rw [findIdx?_tick fun s hs => (UInt32.ne_of_lt (hsorted.1 s hs)).symm]
      simp
    · rw [AList.lookup_erase_ne hne, hindexed, hitems]
      simp [findIdx?_cons, hne.symm, Function.comp_def]

variable {size : Nat} {h : History}

theorem History.Ok.append (hok : h.Ok size) (hvalid : s.tick ≠ 0)
    (hlt : ∀ s' ∈ h.accepted, s'.tick < s.tick) (hindexed : Indexed r)
    (hcapacity : r.capacity = size) (hsuffix : r.items <:+ h.accepted)
    (hlength : r.items.length + 1 = min (h.accepted.length + 1) size) :
    History.Ok size ⟨append r s, h.accepted ++ [s]⟩ := by
  obtain ⟨evicted, haccepted⟩ := hsuffix
  refine ⟨hcapacity, hindexed.append fun s' hs => hlt s' ?_, ?_, ?_, ?_, ?_⟩
  · simp [← haccepted, hs]
  · exact ⟨evicted, by simp [PublishedSnapshots.append, ← haccepted]⟩
  · simpa [PublishedSnapshots.append] using hlength
  · simpa [pairwise_append, hok.increasing] using hlt
  · rw [forall_mem_append, forall_mem_singleton]
    exact ⟨fun s' hs => ⟨(hok.latest s' hs).1, UInt32.le_of_lt (hlt s' hs)⟩, hvalid,
      UInt32.le_refl _⟩

theorem History.Ok.add (hok : h.Ok size) (hpos : 0 < size) {ring}
    (hadd : add h.ring s = .ok ring) : History.Ok size ⟨ring, h.accepted ++ [s]⟩ := by
  simp only [PublishedSnapshots.add, bind_eq_ok, exists_unit, rejectIf_eq_ok, pure_eq_ok,
    SnapshotMeta.validate] at hadd
  obtain ⟨hvalid, hlatest, rfl⟩ := hadd
  have hlt : ∀ s' ∈ h.accepted, s'.tick < s.tick := by
    intro s' hs
    have hle := hok.latest s' hs
    grind
  obtain ⟨hindexed, hitems, hcapacity⟩ :=
    hok.indexed.dropOldest (hok.increasing.sublist hok.suffix.sublist)
  have hlength := hok.length
  rw [hok.capacity]
  split_ifs with hfull
  · refine hok.append (by grind) hlt hindexed (hcapacity.trans hok.capacity) ?_ ?_
    · exact hitems ▸ (tail_suffix _).trans hok.suffix
    · rw [hitems, length_tail]
      omega
  · refine hok.append (by grind) hlt hok.indexed hok.capacity hok.suffix ?_
    omega

theorem History.Ok.call (hok : h.Ok size) (hpos : 0 < size) (call : Call) :
    (h.call call).Ok size := by
  fun_cases History.call h call with
  | case1 _ _ hadd => exact hok.add hpos hadd
  | case2 => exact hok
  | case3 => exact ⟨hok.capacity, fun _ => rfl, nil_suffix, by simp [reset], .nil, nofun⟩

/-- The ring holds the last snapshots it has accepted, and finds each by its tick. -/
theorem ring_representation (capacity : Int) (calls : List Call) :
    let h := calls.foldl History.call ⟨newSnapshotRing capacity, []⟩
    let last := h.accepted.drop (h.accepted.length - (orDefault capacity 64).toNat)
    h.ring.items.Pairwise (·.tick < ·.tick) ∧
    (∀ tick, h.ring.byTick.lookup tick = (h.ring.items.findIdx? (·.tick = tick)).map (↑)) ∧
    (∀ tick, get h.ring tick = last.find? (·.tick = tick)) ∧
    ∀ s error, add h.ring s = .error error → h.call (.add s) = h := by
  intro h last
  have hpos : 0 < (orDefault capacity 64).toNat := by
    rw [orDefault]
    split_ifs <;> omega
  have hok : h.Ok (orDefault capacity 64).toNat := by
    refine foldlRecOn calls History.call ?_ fun h hok call _ => hok.call hpos call
    exact ⟨rfl, fun _ => rfl, nil_suffix, by simp [newSnapshotRing], .nil, nofun⟩
  have hitems : h.ring.items = last := by
    rw [suffix_iff_eq_drop.mp hok.suffix, hok.length]
    congr 1
    omega
  refine ⟨hok.increasing.sublist hok.suffix.sublist, hok.indexed, fun tick => ?_, ?_⟩
  · rw [← hitems, get, hok.indexed, find?_eq_bind_findIdx?_getElem?]
    cases hfind : h.ring.items.findIdx? (·.tick = tick) with
    | none => simp
    | some i =>
      obtain ⟨hlt, htick, -⟩ := findIdx?_eq_some_iff_getElem.mp hfind
      have hvalid := (hok.latest _ (hok.suffix.mem (getElem_mem hlt))).1
      rw [of_decide_eq_true htick] at hvalid
      simp [hvalid, hlt]
  · intro s error hadd
    rw [History.call, hadd]

end CubeCore.PublishedSnapshots
