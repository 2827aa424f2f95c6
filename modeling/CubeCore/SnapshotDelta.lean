import CubeCore.ReplicationSnapshot

namespace CubeCore.SnapshotDelta

open Checked SortedDiff ReplicationSnapshot ObjectState ComponentState

/-- The codes of a kind or an operation that the package does not know are kept. -/
inductive FrameKind where
  | full
  | delta
  | unknown (code : UInt8)
deriving DecidableEq

inductive ObjectOperation where
  | create
  | update
  | remove
  | unknown (code : UInt8)
deriving DecidableEq

inductive ComponentOperation where
  | set
  | remove
  | unknown (code : UInt8)
deriving DecidableEq

structure ComponentDelta where
  operation : ComponentOperation
  typeID : UInt16
  schemaVersion : UInt16
  data : List UInt8
deriving DecidableEq

structure ObjectDelta where
  operation : ObjectOperation
  ref : ObjectRef
  archetype : UInt16
  components : List ComponentDelta
deriving DecidableEq

structure DeltaFrame extends SnapshotMeta where
  kind : FrameKind
  baseTick : UInt32
  objects : List ObjectDelta
deriving DecidableEq

def setComponentDelta (component : ComponentState) : ComponentDelta where
  operation := .set
  typeID := component.typeID
  schemaVersion := component.schemaVersion
  data := component.data

def removeComponentDelta (component : ComponentState) : ComponentDelta where
  operation := .remove
  typeID := component.typeID
  schemaVersion := 0
  data := []

def changedComponent (base current : ComponentState) : Option ComponentDelta :=
  if base.schemaVersion ≠ current.schemaVersion ∨ base.data ≠ current.data then
    some (setComponentDelta current)
  else none

def diffComponents : List ComponentState → List ComponentState → List ComponentDelta :=
  diff ComponentState.typeID (· < ·) setComponentDelta removeComponentDelta changedComponent

def createObjectDelta (object : ObjectState) : ObjectDelta where
  operation := .create
  ref := object.ref
  archetype := object.archetype
  components := object.components.map setComponentDelta

def removeObjectDelta (object : ObjectState) : ObjectDelta where
  operation := .remove
  ref := object.ref
  archetype := 0
  components := []

def changedObject (base current : ObjectState) : Option ObjectDelta :=
  if base.archetype ≠ current.archetype then some (createObjectDelta current)
  else
    match diffComponents base.components current.components with
    | [] => none
    | components =>
      some
        { operation := .update
          ref := current.ref
          archetype := current.archetype
          components }

def diffObjects : List ObjectState → List ObjectState → List ObjectDelta :=
  diff ObjectState.ref ObjectRef.Less createObjectDelta removeObjectDelta changedObject

variable (base : Option Snapshot)

def buildDelta (current : Snapshot) : Except ReplicationError DeltaFrame := do
  current.validate
  match base with
  | none =>
    return { current.toSnapshotMeta with
      kind := .full
      baseTick := 0
      objects := current.objects.map createObjectDelta }
  | some base => do
      rejectIf (base.roomID ≠ current.roomID ∨ base.epoch ≠ current.epoch ∨
        base.schemaVersion ≠ current.schemaVersion ∨ current.tick ≤ base.tick) .baselineMismatch
      return { current.toSnapshotMeta with
        kind := .delta
        baseTick := base.tick
        objects := diffObjects base.objects current.objects }

abbrev Components := AList fun _ : UInt16 => ComponentState

variable (limits : Limits)

/-- The switch of `applyComponentDeltas`. -/
def writeComponent (components : Components) (delta : ComponentDelta) :
    Except ReplicationError Components :=
  match delta.operation with
  | .set => do
      rejectIf (delta.schemaVersion = 0 ∨ limits.maxComponentBytes < delta.data.length)
        .componentTooLarge
      return components.insert delta.typeID
        { typeID := delta.typeID
          schemaVersion := delta.schemaVersion
          data := delta.data }
  | .remove => .ok (components.erase delta.typeID)
  | .unknown code => .error (.invalidFrame ("unknown component operation " ++ toString code))

def applyComponentDelta (components : Components) (delta : ComponentDelta) :
    Except ReplicationError Components := do
  rejectIf (delta.typeID = 0) (.invalidFrame "zero component type")
  let components ← writeComponent limits components delta
  rejectIf (limits.maxComponentsPerObject < components.entries.length) .componentLimit
  return components

/-- The components come in the order of a map; `NewSnapshot` sorts them. -/
def applyComponentDeltas (base : List ComponentState) (deltas : List ComponentDelta)
    (limits : Limits) : Except ReplicationError (List ComponentState) := do
  let components ← deltas.foldlM (applyComponentDelta limits) (mapOf ComponentState.typeID base)
  return values components

abbrev Objects := AList fun _ : ObjectRef => ObjectState

/-- The switch of `ApplyDelta` over the operation of an object delta. -/
def writeObject (objects : Objects) (delta : ObjectDelta) : Except ReplicationError Objects :=
  match delta.operation with
  | .create => do
      rejectIf (delta.archetype = 0) .invalidObjectRef
      let components ← applyComponentDeltas [] delta.components limits
      return objects.insert delta.ref
        { ref := delta.ref
          archetype := delta.archetype
          components }
  | .update =>
    match objects.lookup delta.ref with
    | none => .error .objectNotFound
    | some object => do
        rejectIf (delta.archetype ≠ 0 ∧ delta.archetype ≠ object.archetype)
          (.invalidFrame "archetype changed without create")
        let components ← applyComponentDeltas object.components delta.components limits
        return objects.insert delta.ref { object with components }
  | .remove => .ok (objects.erase delta.ref)
  | .unknown code => .error (.invalidFrame ("unknown object operation " ++ toString code))

def applyObjectDelta (objects : Objects) (delta : ObjectDelta) :
    Except ReplicationError Objects := do
  rejectIf (delta.ref.valid = false) .invalidObjectRef
  let objects ← writeObject limits objects delta
  rejectIf (limits.maxObjects < objects.entries.length) .objectLimit
  return objects

/-- The objects a frame starts from. -/
def baseObjects (frame : DeltaFrame) : Except ReplicationError Objects :=
  match frame.kind with
  | .full => do
      rejectIf (frame.baseTick ≠ 0) (.invalidFrame "full frame has baseline")
      return ∅
  | .delta =>
    match base with
    | none => .error .baselineMismatch
    | some base => do
        rejectIf (frame.baseTick = 0 ∨ base.tick ≠ frame.baseTick ∨
          base.roomID ≠ frame.roomID ∨ base.epoch ≠ frame.epoch ∨
          base.schemaVersion ≠ frame.schemaVersion) .baselineMismatch
        return mapOf ObjectState.ref base.objects
  | .unknown code => .error (.invalidFrame ("unknown frame kind " ++ toString code))

def applyDelta (frame : DeltaFrame) (limits : Limits) : Except ReplicationError Snapshot := do
  let limits := normalizeLimits limits
  frame.validate
  let objects ← baseObjects base frame
  let objects ← frame.objects.foldlM (applyObjectDelta limits) objects
  newSnapshot frame.toSnapshotMeta (values objects) limits

/-- What a component delta that is applied leaves at its type. -/
def ComponentEffect (delta : ComponentDelta) (_ new : Option ComponentState) : Prop :=
  match delta.operation with
  | .set => new = some
      { typeID := delta.typeID
        schemaVersion := delta.schemaVersion
        data := delta.data }
  | .remove => new = none
  | .unknown _ => False

variable {limits : Limits}

theorem applyComponentDelta_eq_ok {components components' : Components}
    (h : applyComponentDelta limits components delta = .ok components') :
    ∃ o, ComponentEffect delta (components.lookup delta.typeID) o ∧
      components' = write components delta.typeID o := by
  simp only [applyComponentDelta, bind_eq_ok, exists_unit, rejectIf_eq_ok, pure_eq_ok] at h
  obtain ⟨-, written, hwritten, -, rfl⟩ := h
  unfold writeComponent at hwritten
  unfold ComponentEffect
  split at hwritten
  · simp only [bind_eq_ok, exists_unit, rejectIf_eq_ok, pure_eq_ok] at hwritten
    exact ⟨some _, rfl, hwritten.2.symm⟩
  · exact ⟨none, rfl, (Except.ok.inj hwritten).symm⟩
  · cases hwritten

theorem component_sound :
    Sound ComponentDelta.typeID ComponentEffect typeID setComponentDelta
      removeComponentDelta changedComponent id fun _ => True where
  puts y _ := ⟨rfl, fun _ _ h => ⟨y, h, rfl⟩⟩
  drops _ := ⟨rfl, fun _ _ => id⟩
  changes x y d _ _ _ hchange := by
    unfold changedComponent at hchange
    split_ifs at hchange
    cases hchange
    exact ⟨rfl, fun _ h => ⟨y, h, rfl⟩⟩
  same x y _ _ hkey hchange := by
    unfold changedComponent at hchange
    obtain ⟨_, _, _⟩ := x
    simp_all

theorem changedComponent_eq_none (hkey : x.typeID = y.typeID) :
    changedComponent x y = none ↔ x = y := by
  constructor
  · exact component_sound.same x y trivial trivial hkey
  · rintro rfl
    simp [changedComponent]

theorem applyComponentDeltas_diff {base current components} (hbase : Increasing typeID (· < ·) base)
    (hcurrent : Increasing typeID (· < ·) current)
    (h : applyComponentDeltas base (diffComponents base current) limits = .ok components) :
    sortBy typeID (· < ·) components = current := by
  simp only [applyComponentDeltas, bind_eq_ok, pure_eq_ok] at h
  obtain ⟨m, hm, rfl⟩ := h
  have happlied := applied_of_foldlM (fun _ _ _ h => applyComponentDelta_eq_ok h) hm
  have hkeyed : Keyed typeID m := by
    refine happlied.keyed ?_ (keyed_mapOf base)
    intro d o v _ heffect
    unfold ComponentEffect at heffect
    split at heffect <;> simp_all
  have hturned := turned_of_applied component_sound (walk_diff hbase hcurrent) (fun _ _ => trivial)
    (fun _ _ => trivial) (fun x hx => lookup_mapOf hbase.nodup_keys hx) happlied
  have hhas := hturned.has fun k => lookup_mapOf_eq_none hbase.nodup_keys
  simpa using hhas.sortBy_values hkeyed (fun _ => rfl) hcurrent

theorem diffComponents_eq_nil {base current} : diffComponents base current = [] ↔ base = current :=
  diff_eq_nil_iff fun _ _ _ _ => changedComponent_eq_none

/-- What an object delta that is applied leaves at its ref. -/
def ObjectEffect (limits : Limits) (delta : ObjectDelta) (old new : Option ObjectState) : Prop :=
  match delta.operation with
  | .create => ∃ components, applyComponentDeltas [] delta.components limits = .ok components ∧
      new = some
        { ref := delta.ref
          archetype := delta.archetype
          components }
  | .update => ∃ object components, old = some object ∧
      applyComponentDeltas object.components delta.components limits = .ok components ∧
      new = some { object with components }
  | .remove => new = none
  | .unknown _ => False

variable {objects : Objects}

theorem applyObjectDelta_eq_ok (h : applyObjectDelta limits objects delta = .ok objects') :
    ∃ o, ObjectEffect limits delta (objects.lookup delta.ref) o ∧
      objects' = write objects delta.ref o := by
  simp only [applyObjectDelta, bind_eq_ok, exists_unit, rejectIf_eq_ok, pure_eq_ok] at h
  obtain ⟨-, written, hwritten, -, rfl⟩ := h
  unfold writeObject at hwritten
  unfold ObjectEffect
  split at hwritten
  · simp only [bind_eq_ok, exists_unit, rejectIf_eq_ok, pure_eq_ok] at hwritten
    obtain ⟨-, components, hcomponents, rfl⟩ := hwritten
    exact ⟨some _, ⟨components, hcomponents, rfl⟩, rfl⟩
  · split at hwritten
    · cases hwritten
    rename_i object hlookup
    simp only [bind_eq_ok, exists_unit, rejectIf_eq_ok, pure_eq_ok] at hwritten
    obtain ⟨-, components, hcomponents, rfl⟩ := hwritten
    exact ⟨some _, ⟨object, components, hlookup, hcomponents, rfl⟩, rfl⟩
  · exact ⟨none, rfl, (Except.ok.inj hwritten).symm⟩
  · cases hwritten

variable {y : ObjectState}

theorem createObjectDelta_effect (hy : y.Normal)
    (h : ObjectEffect limits (createObjectDelta y) old new) :
    ∃ v, new = some v ∧ sortComponents v = y := by
  obtain ⟨components, hcomponents, rfl⟩ := h
  refine ⟨_, rfl, ?_⟩
  have hsorted := applyComponentDeltas_diff .nil hy.increasing hcomponents
  simp [sortComponents, createObjectDelta, hsorted]

theorem changedObject_eq_none (hkey : x.ref = y.ref) : changedObject x y = none ↔ x = y := by
  constructor
  · intro h
    unfold changedObject at h
    split_ifs at h with harchetype
    split at h
    · rename_i hcomponents
      rw [diffComponents_eq_nil] at hcomponents
      obtain ⟨_, _, _⟩ := x
      simp_all
    · cases h
  · rintro rfl
    simp [changedObject, diffComponents_eq_nil.mpr]

theorem object_sound (limits : Limits) :
    Sound ObjectDelta.ref (ObjectEffect limits) ref createObjectDelta
      removeObjectDelta changedObject sortComponents ObjectState.Normal where
  puts y hy := ⟨rfl, fun _ _ => createObjectDelta_effect hy⟩
  drops _ := ⟨rfl, fun _ _ => id⟩
  changes x y d hx hy hkey hchange := by
    unfold changedObject at hchange
    split_ifs at hchange with harchetype
    · cases hchange
      exact ⟨rfl, fun _ => createObjectDelta_effect hy⟩
    split at hchange
    · cases hchange
    cases hchange
    refine ⟨rfl, ?_⟩
    rintro new ⟨object, components, hold, hcomponents, rfl⟩
    cases hold
    refine ⟨_, rfl, ?_⟩
    have hsorted := applyComponentDeltas_diff hx.increasing hy.increasing hcomponents
    simp_all [sortComponents]
  same x y hx _ hkey hchange := by
    rw [sortComponents_eq_self hx]
    exact (changedObject_eq_none hkey).mp hchange

theorem applyObjectDeltas_diff {base current} (hbase : Increasing ref ObjectRef.Less base)
    (hcurrent : Increasing ref ObjectRef.Less current) (hnormal : ∀ o ∈ base, o.Normal)
    (hnormal' : ∀ o ∈ current, o.Normal)
    (h : (diffObjects base current).foldlM (applyObjectDelta limits) (mapOf ref base) =
      .ok objects) :
    (sortBy ref ObjectRef.Less (values objects)).map sortComponents = current := by
  have happlied := applied_of_foldlM (fun _ _ _ h => applyObjectDelta_eq_ok h) h
  have hkeyed : Keyed ref objects := by
    refine happlied.keyed ?_ (keyed_mapOf base)
    intro d o v hold heffect
    unfold ObjectEffect at heffect
    split at heffect
    · obtain ⟨_, -, hv⟩ := heffect
      cases hv
      rfl
    · obtain ⟨object, _, hobject, -, hv⟩ := heffect
      cases hv
      exact hold object hobject
    · cases heffect
    · cases heffect
  have hturned := turned_of_applied (object_sound limits) (walk_diff hbase hcurrent)
    hnormal hnormal'
    (fun x hx => lookup_mapOf hbase.nodup_keys hx) happlied
  have hhas := hturned.has fun k => lookup_mapOf_eq_none hbase.nodup_keys
  exact hhas.sortBy_values hkeyed (fun _ => rfl) hcurrent

variable {base : Option Snapshot} {frame : DeltaFrame}

theorem buildDelta_eq_ok (h : buildDelta base current = .ok frame) :
    frame.toSnapshotMeta = current.toSnapshotMeta ∧
      frame.objects = diffObjects (base.elim [] Snapshot.objects) current.objects ∧
      (frame.kind = .full ↔ base = none) ∧
      frame.baseTick = base.elim 0 (·.tick) ∧
      ∀ b ∈ base, frame.kind = .delta ∧ b.roomID = current.roomID ∧ b.epoch = current.epoch ∧
        b.schemaVersion = current.schemaVersion ∧ b.tick < current.tick := by
  cases base with
  | none =>
    simp only [buildDelta, bind_eq_ok, exists_unit, pure_eq_ok] at h
    obtain ⟨-, rfl⟩ := h
    exact ⟨rfl, rfl, by simp, rfl, nofun⟩
  | some =>
    simp only [buildDelta, bind_eq_ok, exists_unit, rejectIf_eq_ok, pure_eq_ok] at h
    obtain ⟨-, hsame, rfl⟩ := h
    push Not at hsame
    refine ⟨rfl, rfl, by simp, rfl, ?_⟩
    intro b' hb'
    obtain rfl := Option.some.inj hb'
    exact ⟨rfl, hsame.1, hsame.2.1, hsame.2.2.1, UInt32.not_le.mp hsame.2.2.2⟩

theorem baseObjects_eq_ok (h : baseObjects base frame = .ok objects) :
    objects = mapOf ref
      (if frame.kind = .full then [] else base.elim [] Snapshot.objects) := by
  unfold baseObjects at h
  split at h
  · rename_i hkind
    simp only [bind_eq_ok, exists_unit, rejectIf_eq_ok, pure_eq_ok] at h
    rw [if_pos hkind]
    exact h.2.symm
  · rename_i hkind
    cases base with
    | none => cases h
    | some =>
      simp only [bind_eq_ok, exists_unit, rejectIf_eq_ok, pure_eq_ok] at h
      simpa [hkind] using h.2.symm
  · cases h

/-- A frame applied to its base is refused or gives the snapshot it was made of. -/
theorem applyDelta_buildDelta (hbase : ∀ b ∈ base, b.Normal) (hcurrent : current.Normal)
    (hbuild : buildDelta base current = .ok frame)
    (happly : applyDelta base frame limits = .ok out) : out = current := by
  obtain ⟨hmeta, hobjects, hkind, -, -⟩ := buildDelta_eq_ok hbuild
  simp only [applyDelta, bind_eq_ok, exists_unit] at happly
  obtain ⟨-, start, hstart, objects, hfold, hnew⟩ := happly
  have hstart' : start = mapOf ref (base.elim [] Snapshot.objects) := by
    rw [baseObjects_eq_ok hstart]
    cases base with
    | none => simp
    | some => simp [hkind]
  obtain ⟨houtmeta, houtobjects, -⟩ := newSnapshot_eq_ok hnew
  have hnormal : Increasing ref ObjectRef.Less (base.elim [] Snapshot.objects) ∧
      ∀ o ∈ base.elim [] Snapshot.objects, o.Normal := by
    cases base with
    | none => exact ⟨.nil, nofun⟩
    | some b => exact ⟨(hbase b rfl).increasing, (hbase b rfl).objects⟩
  rw [hobjects, hstart'] at hfold
  have hvalues := applyObjectDeltas_diff hnormal.1 hcurrent.increasing hnormal.2
    hcurrent.objects hfold
  obtain ⟨_, _⟩ := out
  simp_all

/-- The snapshots `NewSnapshot` accepts, under some limits. -/
def Accepted (s : Snapshot) : Prop :=
  ∃ m objects limits, newSnapshot m objects limits = .ok s

theorem Accepted.normal (h : Accepted s) : s.Normal := by
  obtain ⟨m, objects, limits, h⟩ := h
  exact (newSnapshot_eq_ok h).2.2

theorem delta_soundness {base : Option Snapshot} {current : Snapshot} {frame : DeltaFrame}
    (hbase : ∀ b ∈ base, Accepted b) (hcurrent : Accepted current)
    (hbuild : buildDelta base current = .ok frame) :
    (∀ limits, (∃ e, applyDelta base frame limits = .error e) ∨
      applyDelta base frame limits = .ok current) ∧
      (frame.objects = [] ↔ (∃ b, base = some b ∧ b.objects = current.objects) ∨
          base = none ∧ current.objects = []) := by
  constructor
  · intro limits
    cases happly : applyDelta base frame limits with
    | error e => exact .inl ⟨e, rfl⟩
    | ok =>
      have hout := applyDelta_buildDelta (fun b hb => (hbase b hb).normal) hcurrent.normal
        hbuild happly
      exact .inr (congrArg Except.ok hout)
  rw [(buildDelta_eq_ok hbuild).2.1, diffObjects,
    diff_eq_nil_iff fun _ _ _ _ => changedObject_eq_none]
  cases base with
  | none => simp [eq_comm]
  | some => simp

def oneObject (tick : UInt32) (data : List UInt8) : Snapshot where
  roomID := 100
  epoch := 1
  tick := tick
  schemaVersion := 1
  objects := [⟨⟨1, 1⟩, 1, [⟨1, 1, data⟩]⟩]

def oneUpdate : DeltaFrame where
  toSnapshotMeta := (oneObject 2 [8]).toSnapshotMeta
  kind := .delta
  baseTick := 1
  objects := [⟨.update, ⟨1, 1⟩, 1, [⟨.set, 1, 1, [8]⟩]⟩]

theorem delta_soundness_update :
    applyDelta (some (oneObject 1 [7])) oneUpdate defaultLimits = .ok (oneObject 2 [8]) ∧
      ((∀ limits, (∃ e, applyDelta (some (oneObject 1 [7])) oneUpdate limits = .error e) ∨
        applyDelta (some (oneObject 1 [7])) oneUpdate limits = .ok (oneObject 2 [8])) ∧
        (oneUpdate.objects = [] ↔
          (∃ b, some (oneObject 1 [7]) = some b ∧ b.objects = (oneObject 2 [8]).objects) ∨
            some (oneObject 1 [7]) = none ∧ (oneObject 2 [8]).objects = [])) := by
  refine ⟨by decide +kernel, delta_soundness ?_ ?_ (by decide +kernel)⟩
  · intro b hb
    cases hb
    exact ⟨(oneObject 1 [7]).toSnapshotMeta, (oneObject 1 [7]).objects, defaultLimits,
      by decide +kernel⟩
  · exact ⟨(oneObject 2 [8]).toSnapshotMeta, (oneObject 2 [8]).objects, defaultLimits,
      by decide +kernel⟩

end CubeCore.SnapshotDelta
