import CubeCore.SortedDiff

namespace CubeCore.ReplicationSnapshot

open Checked SortedDiff List

/-- An error that wraps `ErrInvalidFrame` has its text, one of a projector the projector's. -/
inductive ReplicationError where
  | invalidObjectRef
  | objectNotFound
  | objectLimit
  | componentLimit
  | componentTooLarge
  | frameTooLarge
  | invalidFrame (detail : String)
  | baselineMismatch
  | snapshotNotFound
  | sessionNotFound
  | invalidAck
  | invalidControl
  | preparedFrameStale
  | invalidDatagram
  | checksumMismatch
  | fragmentLimit
  | reassemblyCapacity
  | projector (detail : String)
deriving DecidableEq

structure Limits where
  maxObjects : Int
  maxComponentsPerObject : Int
  maxComponentBytes : Int
  maxFrameBytes : Int
  maxDatagramBytes : Int
  maxFragments : Int
  maxInflightFrames : Int
deriving DecidableEq

def defaultLimits : Limits where
  maxObjects := 100
  maxComponentsPerObject := 64
  maxComponentBytes := 65536
  maxFrameBytes := 4194304
  maxDatagramBytes := 1200
  maxFragments := 64
  maxInflightFrames := 32

def orDefault (value default : Int) : Int :=
  if value ≤ 0 then default else value

def normalizeLimits (limits : Limits) : Limits where
  maxObjects := orDefault limits.maxObjects defaultLimits.maxObjects
  maxComponentsPerObject :=
    orDefault limits.maxComponentsPerObject defaultLimits.maxComponentsPerObject
  maxComponentBytes := orDefault limits.maxComponentBytes defaultLimits.maxComponentBytes
  maxFrameBytes := orDefault limits.maxFrameBytes defaultLimits.maxFrameBytes
  maxDatagramBytes := orDefault limits.maxDatagramBytes defaultLimits.maxDatagramBytes
  maxFragments := orDefault limits.maxFragments defaultLimits.maxFragments
  maxInflightFrames := orDefault limits.maxInflightFrames defaultLimits.maxInflightFrames

theorem orDefault_pos {value default : Int} (h : 0 < default) : 0 < orDefault value default := by
  unfold orDefault
  split <;> omega

theorem orDefault_of_pos {value default : Int} (h : 0 < value) :
    orDefault value default = value := by
  unfold orDefault
  split <;> omega

@[simp] theorem normalizeLimits_idem (limits : Limits) :
    normalizeLimits (normalizeLimits limits) = normalizeLimits limits := by
  have hidem : ∀ value default : Int, 0 < default →
      orDefault (orDefault value default) default = orDefault value default :=
    fun _ _ h => orDefault_of_pos (orDefault_pos h)
  unfold normalizeLimits
  congr 1 <;> exact hidem _ _ (by decide)

structure ObjectRef where
  id : UInt16
  generation : UInt16
deriving DecidableEq

def ObjectRef.valid (r : ObjectRef) : Bool :=
  r.id ≠ 0 && r.generation ≠ 0

def ObjectRef.Less (r other : ObjectRef) : Prop :=
  if r.id ≠ other.id then r.id < other.id else r.generation < other.generation

instance : DecidableRel ObjectRef.Less := fun r other =>
  inferInstanceAs (Decidable (if r.id ≠ other.id then _ else _))

instance : IsStrictTotalOrder ObjectRef ObjectRef.Less where
  trichotomous := by
    rintro ⟨i, g⟩ ⟨i', g'⟩
    simp only [ObjectRef.Less, ObjectRef.mk.injEq]
    grind
  irrefl := by
    rintro ⟨i, g⟩
    simp [ObjectRef.Less]
  trans := by
    rintro ⟨i, g⟩ ⟨i', g'⟩ ⟨i'', g''⟩
    simp only [ObjectRef.Less]
    grind

instance uint16StrictTotalOrder : IsStrictTotalOrder UInt16 (· < ·) where
  trichotomous := by grind
  irrefl := by grind
  trans := by grind

structure SnapshotMeta where
  roomID : UInt64
  epoch : UInt32
  tick : UInt32
  schemaVersion : UInt16
deriving DecidableEq

def SnapshotMeta.validate (m : SnapshotMeta) : Except ReplicationError Unit :=
  rejectIf (m.roomID = 0 ∨ m.epoch = 0 ∨ m.tick = 0 ∨ m.schemaVersion = 0)
    (.invalidFrame "invalid snapshot metadata")

structure ComponentState where
  typeID : UInt16
  schemaVersion : UInt16
  data : List UInt8
deriving DecidableEq

structure ObjectState where
  ref : ObjectRef
  archetype : UInt16
  components : List ComponentState
deriving DecidableEq

structure Snapshot extends SnapshotMeta where
  objects : List ObjectState
deriving DecidableEq

def sortComponents (object : ObjectState) : ObjectState :=
  { object with components := sortBy ComponentState.typeID (· < ·) object.components }

/-- The loop over the sorted components of an object, with the estimated size so far. -/
def checkComponents (limits : Limits) :
    Option UInt16 → Nat → List ComponentState → Except ReplicationError Nat
  | _, estimated, [] => .ok estimated
  | lastType, estimated, component :: rest => do
      rejectIf (component.typeID = 0 ∨ component.schemaVersion = 0)
        (.invalidFrame "invalid component")
      rejectIf (lastType = some component.typeID)
        (.invalidFrame ("duplicate component " ++ toString component.typeID))
      rejectIf (limits.maxComponentBytes < component.data.length) .componentTooLarge
      let estimated := estimated + (12 + component.data.length)
      rejectIf (limits.maxFrameBytes < estimated) .frameTooLarge
      checkComponents limits (some component.typeID) estimated rest

/-- The loop of `NewSnapshot` over the sorted objects. -/
def checkObjects (limits : Limits) :
    Option ObjectRef → Nat → List ObjectState → Except ReplicationError (List ObjectState)
  | _, _, [] => .ok []
  | last, estimated, object :: rest => do
      let estimated := estimated + 9
      rejectIf (object.ref.valid = false ∨ object.archetype = 0) .invalidObjectRef
      rejectIf (last = some object.ref)
        (.invalidFrame ("duplicate object \x7bID:" ++ toString object.ref.id ++
          " Generation:" ++ toString object.ref.generation ++ "\x7d"))
      rejectIf (limits.maxComponentsPerObject < object.components.length) .componentLimit
      let sorted := sortComponents object
      let estimated ← checkComponents limits none estimated sorted.components
      let rest ← checkObjects limits (some object.ref) estimated rest
      return sorted :: rest

/-- The order of equal keys is open; a list with two is rejected in any order. -/
def newSnapshot (m : SnapshotMeta) (objects : List ObjectState) (limits : Limits) :
    Except ReplicationError Snapshot := do
  m.validate
  let limits := normalizeLimits limits
  rejectIf (limits.maxObjects < objects.length) .objectLimit
  let objects ← checkObjects limits none 32 (sortBy ObjectState.ref ObjectRef.Less objects)
  return { m with objects }

/-- The components of an object as `NewSnapshot` leaves them. -/
structure ObjectState.Normal (object : ObjectState) : Prop where
  valid : object.ref.valid = true
  archetype : object.archetype ≠ 0
  increasing : Increasing ComponentState.typeID (· < ·) object.components
  nonzero : ∀ c ∈ object.components, c.typeID ≠ 0 ∧ c.schemaVersion ≠ 0

/-- The snapshots that `NewSnapshot` makes. -/
structure Snapshot.Normal (s : Snapshot) : Prop where
  meta_valid : s.validate = .ok ()
  increasing : Increasing ObjectState.ref ObjectRef.Less s.objects
  objects : ∀ o ∈ s.objects, o.Normal

/-- The components of an object are within the limits. -/
structure ObjectState.Within (limits : Limits) (object : ObjectState) : Prop where
  count : object.components.length ≤ limits.maxComponentsPerObject
  bytes : ∀ c ∈ object.components, c.data.length ≤ limits.maxComponentBytes

variable {limits : Limits} {estimated : Nat}

theorem checkComponents_spec (h : checkComponents limits last estimated components = .ok e) :
    (∀ t ∈ last, ∀ c ∈ components.head?, t ≠ c.typeID) ∧
      components.IsChain (fun a b => a.typeID ≠ b.typeID) ∧
      (∀ c ∈ components, c.typeID ≠ 0 ∧ c.schemaVersion ≠ 0) ∧
      ∀ c ∈ components, c.data.length ≤ limits.maxComponentBytes := by
  induction components generalizing last estimated with
  | nil => exact ⟨fun _ _ _ => nofun, .nil, nofun, nofun⟩
  | cons c rest ih =>
    simp only [checkComponents, bind_eq_ok, exists_unit, rejectIf_eq_ok] at h
    obtain ⟨hzero, hlast, hbytes, -, hrest⟩ := h
    obtain ⟨hhead, hchain, hall⟩ := ih hrest
    push Not at hzero
    refine ⟨?_, hchain.cons fun b hb => hhead _ rfl b hb, forall_mem_cons.mpr ⟨hzero, hall.1⟩,
      forall_mem_cons.mpr ⟨Int.not_lt.mp hbytes, hall.2⟩⟩
    rintro t ht c' hc' rfl
    obtain rfl := Option.some.inj hc'
    exact hlast ht

variable {objects : List ObjectState}

theorem checkObjects_spec (h : checkObjects limits last estimated objects = .ok checked) :
    checked = objects.map sortComponents ∧ (∀ r ∈ last, ∀ o ∈ objects.head?, r ≠ o.ref) ∧
      objects.IsChain (fun a b => a.ref ≠ b.ref) ∧ ∀ o ∈ checked, o.Normal ∧ o.Within limits := by
  induction objects generalizing last estimated checked with
  | nil =>
    obtain rfl := Except.ok.inj h
    exact ⟨rfl, fun _ _ _ => nofun, .nil, nofun⟩
  | cons o rest ih =>
    simp only [checkObjects, bind_eq_ok, exists_unit, rejectIf_eq_ok, pure_eq_ok] at h
    obtain ⟨hvalid, hlast, hcount, e, hcomponents, checked, hrest, rfl⟩ := h
    obtain ⟨rfl, hhead, hchain, hall⟩ := ih hrest
    obtain ⟨-, hdistinct, hnonzero, hbytes⟩ := checkComponents_spec hcomponents
    push Not at hvalid
    refine ⟨rfl, ?_, hchain.cons fun b hb => hhead _ rfl b hb,
      forall_mem_cons.mpr ⟨⟨⟨Bool.eq_true_of_not_eq_false hvalid.1, hvalid.2,
        increasing_of_isChain (sortBy_pairwise _) hdistinct, hnonzero⟩, ?_, hbytes⟩, hall⟩⟩
    · rintro r hr o' ho' rfl
      obtain rfl := Option.some.inj ho'
      exact hlast hr
    · rw [sortComponents, (sortBy_perm _).length_eq]
      exact Int.not_lt.mp hcount

theorem newSnapshot_eq_ok (h : newSnapshot m objects limits = .ok s) :
    s.toSnapshotMeta = m ∧
      s.objects = (sortBy ObjectState.ref ObjectRef.Less objects).map sortComponents ∧
      s.Normal := by
  simp only [newSnapshot, bind_eq_ok, exists_unit, rejectIf_eq_ok, pure_eq_ok] at h
  obtain ⟨hmeta, -, checked, hchecked, rfl⟩ := h
  obtain ⟨rfl, -, hchain, hall⟩ := checkObjects_spec hchecked
  refine ⟨rfl, rfl, hmeta, ?_, fun o ho => (hall o ho).1⟩
  exact pairwise_map.mpr (increasing_of_isChain (sortBy_pairwise objects) hchain)

theorem sortComponents_eq_self (h : object.Normal) : sortComponents object = object := by
  simp only [sortComponents, sortBy_eq_self h.increasing]

theorem checkObjects_sorted (last : Option ObjectRef) (objects : List ObjectState) :
    checkObjects limits last estimated (objects.map sortComponents) =
      checkObjects limits last estimated objects := by
  induction objects generalizing last estimated with
  | nil => rfl
  | cons o rest ih =>
    have hself : sortComponents (sortComponents o) = sortComponents o := by
      unfold sortComponents
      congr 1
      exact List.Pairwise.insertionSort_eq (sortBy_pairwise _)
    have hlength : (sortComponents o).components.length = o.components.length :=
      (sortBy_perm _).length_eq
    simp only [map_cons, checkObjects, hself, hlength, ih]
    rfl

theorem newSnapshot_of_sorted (h : newSnapshot m objects limits = .ok s)
    (hsorted : (sortBy ObjectState.ref ObjectRef.Less objects').map sortComponents = s.objects) :
    newSnapshot s.toSnapshotMeta objects' limits = .ok s := by
  obtain ⟨-, hobjects, -⟩ := newSnapshot_eq_ok h
  have hlength : objects'.length = objects.length := by
    have := congrArg length (hsorted.trans hobjects)
    simpa only [length_map, (sortBy_perm _).length_eq] using this
  simp only [newSnapshot, bind_eq_ok, exists_unit, rejectIf_eq_ok, pure_eq_ok] at h ⊢
  obtain ⟨hmeta, hcount, checked, hchecked, rfl⟩ := h
  refine ⟨hmeta, by rwa [hlength], checked, ?_, rfl⟩
  rw [← checkObjects_sorted, hsorted, hobjects, checkObjects_sorted, hchecked]

theorem newSnapshot_self (h : newSnapshot m objects limits = .ok s) :
    newSnapshot s.toSnapshotMeta s.objects limits = .ok s := by
  obtain ⟨-, -, hnormal⟩ := newSnapshot_eq_ok h
  refine newSnapshot_of_sorted h ?_
  rw [sortBy_eq_self hnormal.increasing]
  refine (map_congr_left fun o ho => ?_).trans (map_id _)
  exact sortComponents_eq_self (hnormal.objects o ho)

end CubeCore.ReplicationSnapshot
