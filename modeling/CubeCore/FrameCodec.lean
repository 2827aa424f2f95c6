import CubeCore.SnapshotDelta
import CubeCore.WireFormat
import Mathlib.Algebra.Group.Int.Defs
import Mathlib.Algebra.GroupWithZero.Nat

namespace CubeCore.FrameCodec

open Checked WireFormat ReplicationSnapshot SnapshotDelta List UInt16

def frameMagic : UInt32 := 0x43525031

def protocolVersion : UInt16 := 1

def kindCode : FrameKind → UInt8
  | .full => 1
  | .delta => 2
  | .unknown code => code

variable (code : UInt8)

def kindOfCode : FrameKind :=
  if code = 1 then .full else if code = 2 then .delta else .unknown code

def objectCode : ObjectOperation → UInt8
  | .create => 1
  | .update => 2
  | .remove => 3
  | .unknown code => code

def objectOfCode : ObjectOperation :=
  if code = 1 then .create else if code = 2 then .update else if code = 3 then .remove
  else .unknown code

def componentCode : ComponentOperation → UInt8
  | .set => 1
  | .remove => 2
  | .unknown code => code

def componentOfCode : ComponentOperation :=
  if code = 1 then .set else if code = 2 then .remove else .unknown code

@[simp] theorem kindCode_ofCode : kindCode (kindOfCode code) = code := by
  grind [kindCode, kindOfCode]

@[simp] theorem objectCode_ofCode : objectCode (objectOfCode code) = code := by
  grind [objectCode, objectOfCode]

@[simp] theorem componentCode_ofCode : componentCode (componentOfCode code) = code := by
  grind [componentCode, componentOfCode]

/-- The double of a limit, as an `int` of the source. -/
def doubled (limit : Int) : Int :=
  (limit * 2).bmod (2 ^ 64)

/-- The loop of `validateDeltaFrame` over the components of an object. -/
def validateComponents (limits : Limits) (operation : ObjectOperation) :
    List UInt16 → List ComponentDelta → Except ReplicationError Unit
  | _, [] => .ok ()
  | seen, component :: rest => do
      rejectIf (component.typeID = 0 ∨
        component.operation ≠ .set ∧ component.operation ≠ .remove)
        (.invalidFrame "invalid component delta")
      rejectIf (component.typeID ∈ seen) (.invalidFrame "duplicate component delta")
      rejectIf (operation = .create ∧ component.operation ≠ .set)
        (.invalidFrame "create object contains component remove")
      rejectIf (component.operation = .set ∧ component.schemaVersion = 0)
        (.invalidFrame "component schema version is zero")
      rejectIf (component.operation = .remove ∧
        (component.schemaVersion ≠ 0 ∨ component.data ≠ []))
        (.invalidFrame "remove component has payload")
      rejectIf (limits.maxComponentBytes < component.data.length) .componentTooLarge
      validateComponents limits operation (component.typeID :: seen) rest

/-- The loop of `validateDeltaFrame` over the objects. -/
def validateObjects (limits : Limits) (kind : FrameKind) :
    List ObjectRef → List ObjectDelta → Except ReplicationError Unit
  | _, [] => .ok ()
  | seen, object :: rest => do
      rejectIf (object.ref.valid = false) .invalidObjectRef
      rejectIf (object.operation ≠ .create ∧ object.operation ≠ .update ∧
        object.operation ≠ .remove) (.invalidFrame "invalid object operation")
      rejectIf (object.ref ∈ seen) (.invalidFrame "duplicate object delta")
      rejectIf (kind = .full ∧ object.operation ≠ .create)
        (.invalidFrame "full frame contains non-create operation")
      rejectIf (object.operation = .create ∧ object.archetype = 0) .invalidObjectRef
      rejectIf (object.operation = .remove ∧ object.components ≠ [])
        (.invalidFrame "remove object has components")
      rejectIf (doubled limits.maxComponentsPerObject < object.components.length) .componentLimit
      validateComponents limits object.operation [] object.components
      validateObjects limits kind (object.ref :: seen) rest

variable (frame : DeltaFrame)

def validateDeltaFrame (limits : Limits) : Except ReplicationError Unit := do
  frame.validate
  rejectIf (frame.kind ≠ .full ∧ frame.kind ≠ .delta)
    (.invalidFrame ("unknown frame kind " ++ toString (kindCode frame.kind)))
  rejectIf (frame.kind = .full ∧ frame.baseTick ≠ 0) (.invalidFrame "full frame has baseline")
  rejectIf (frame.kind = .delta ∧ (frame.baseTick = 0 ∨ frame.tick ≤ frame.baseTick))
    .baselineMismatch
  rejectIf (doubled limits.maxObjects < frame.objects.length) .objectLimit
  validateObjects limits frame.kind [] frame.objects

def frameHeader : List UInt8 :=
  putBE 4 frameMagic.toNat ++ (putBE 2 protocolVersion.toNat ++
    (putBE 1 (kindCode frame.kind).toNat ++ (putBE 1 0 ++ (putBE 8 frame.roomID.toNat ++
    (putBE 4 frame.epoch.toNat ++ (putBE 4 frame.tick.toNat ++ (putBE 4 frame.baseTick.toNat ++
    (putBE 2 frame.schemaVersion.toNat ++ putBE 2 frame.objects.length))))))))

def objectHeader (object : ObjectDelta) : List UInt8 :=
  putBE 1 (objectCode object.operation).toNat ++ (putBE 2 object.ref.id.toNat ++
    (putBE 2 object.ref.generation.toNat ++ (putBE 2 object.archetype.toNat ++
    putBE 2 object.components.length)))

def componentBytes (component : ComponentDelta) : List UInt8 :=
  putBE 1 (componentCode component.operation).toNat ++
    (putBE 2 component.typeID.toNat ++ (putBE 2 component.schemaVersion.toNat ++
    (putBE 4 component.data.length ++ component.data)))

/-- The loop over the components of an object. The buffer is measured after each. -/
def encodeComponents (limits : Limits) :
    List UInt8 → List ComponentDelta → Except ReplicationError (List UInt8)
  | buffer, [] => .ok buffer
  | buffer, component :: rest => do
      let buffer := buffer ++ componentBytes component
      rejectIf (limits.maxFrameBytes < buffer.length) .frameTooLarge
      encodeComponents limits buffer rest

def encodeObjects (limits : Limits) :
    List UInt8 → List ObjectDelta → Except ReplicationError (List UInt8)
  | buffer, [] => .ok buffer
  | buffer, object :: rest => do
      rejectIf (65535 < object.components.length) .componentLimit
      let buffer ← encodeComponents limits (buffer ++ objectHeader object) object.components
      encodeObjects limits buffer rest

def encodeFrame (limits : Limits) : Except ReplicationError (List UInt8) := do
  let limits := normalizeLimits limits
  validateDeltaFrame frame limits
  rejectIf (65535 < frame.objects.length) .objectLimit
  encodeObjects limits (frameHeader frame) frame.objects

def truncated : ReplicationError := .invalidFrame "truncated frame"

def truncatedComponent : ReplicationError := .invalidFrame "truncated component"

/-- The payload of a component, whose length has been read. -/
def readPayload (maxBytes length : Nat) : Reader ReplicationError (List UInt8) := fun bytes =>
  if maxBytes < length ∨ bytes.length < length then .error .componentTooLarge
  else readFull length truncatedComponent bytes

variable (limits : Limits)

def readComponent : Reader ReplicationError ComponentDelta := do
  let operation ← readUint8 truncated
  let typeID ← readUint16 truncated
  let schemaVersion ← readUint16 truncated
  let payloadLength ← readUint32 truncated
  let data ← readPayload (limits.maxComponentBytes.toNat % 2 ^ 32) payloadLength.toNat
  return { operation := componentOfCode operation, typeID, schemaVersion, data }

def readObject : Reader ReplicationError ObjectDelta := do
  let operation ← readUint8 truncated
  let id ← readUint16 truncated
  let generation ← readUint16 truncated
  let archetype ← readUint16 truncated
  let componentCount ← readUint16 truncated
  rejectIf (doubled limits.maxComponentsPerObject < componentCount.toNat)
    ReplicationError.componentLimit
  let components ← readMany (readComponent limits) componentCount.toNat
  return {
    operation := objectOfCode operation
    ref := { id, generation }
    archetype
    components }

def readFrame : Reader ReplicationError DeltaFrame := do
  let magic ← readUint32 truncated
  let protocol ← readUint16 truncated
  let kind ← readUint8 truncated
  let reserved ← readUint8 truncated
  let roomID ← readUint64 truncated
  let epoch ← readUint32 truncated
  let tick ← readUint32 truncated
  let baseTick ← readUint32 truncated
  let schemaVersion ← readUint16 truncated
  let objectCount ← readUint16 truncated
  rejectIf (magic ≠ frameMagic ∨ protocol ≠ protocolVersion ∨ reserved ≠ 0)
    (ReplicationError.invalidFrame "unsupported header")
  rejectIf (doubled limits.maxObjects < objectCount.toNat) ReplicationError.objectLimit
  let objects ← readMany (readObject limits) objectCount.toNat
  return { roomID, epoch, tick, schemaVersion, kind := kindOfCode kind, baseTick, objects }

def decodeFrame (data : List UInt8) (limits : Limits) : Except ReplicationError DeltaFrame := do
  let limits := normalizeLimits limits
  rejectIf (data = [] ∨ limits.maxFrameBytes < data.length) .frameTooLarge
  let (frame, rest) ← (readFrame limits).run data
  rejectIf (rest ≠ []) (.invalidFrame "trailing bytes")
  validateDeltaFrame frame limits
  return frame

def objectBytes (object : ObjectDelta) : List UInt8 :=
  objectHeader object ++ object.components.flatMap componentBytes

def frameBytes : List UInt8 :=
  frameHeader frame ++ frame.objects.flatMap objectBytes

/-- The components that `readComponent` returns. -/
structure ComponentFits (limits : Limits) (component : ComponentDelta) : Prop where
  operation : componentOfCode (componentCode component.operation) = component.operation
  maxBytes : component.data.length ≤ limits.maxComponentBytes.toNat % 2 ^ 32
  length : component.data.length < 2 ^ 32

/-- The objects that `readObject` returns. -/
structure ObjectFits (limits : Limits) (object : ObjectDelta) : Prop where
  operation : objectOfCode (objectCode object.operation) = object.operation
  maxComponents : object.components.length ≤ doubled limits.maxComponentsPerObject
  length : object.components.length < 2 ^ 16
  components : ∀ c ∈ object.components, ComponentFits limits c

/-- The frames that `readFrame` returns. -/
structure FrameFits (limits : Limits) (frame : DeltaFrame) : Prop where
  kind : kindOfCode (kindCode frame.kind) = frame.kind
  maxObjects : frame.objects.length ≤ doubled limits.maxObjects
  length : frame.objects.length < 2 ^ 16
  objects : ∀ o ∈ frame.objects, ObjectFits limits o

theorem reads_readPayload (maxBytes length : Nat) :
    Reads (readPayload maxBytes length) id
      fun data => length ≤ maxBytes ∧ data.length = length where
  back := by
    rintro data rest ⟨hmax, rfl⟩
    have hpass : ¬ (maxBytes < data.length ∨ (data ++ rest).length < data.length) := by
      rw [length_append]
      omega
    have hread := (reads_readFull data.length truncatedComponent).back data rest rfl
    simpa only [StateT.run, readPayload, id, if_neg hpass] using hread
  exact bytes data rest hread := by
    simp only [StateT.run, readPayload] at hread
    split_ifs at hread with hpass
    obtain ⟨hlength, hbytes⟩ := (reads_readFull length truncatedComponent).exact _ _ _ hread
    push Not at hpass
    exact ⟨⟨hpass.1, hlength⟩, hbytes⟩

theorem reads_readComponent :
    Reads (readComponent limits) componentBytes (ComponentFits limits) := by
  have h :=
    (reads_readUint8 truncated).field (fun c : ComponentDelta => componentCode c.operation)
      (fun operation =>
    (reads_readUint16 truncated).field ComponentDelta.typeID (fun typeID =>
    (reads_readUint16 truncated).field ComponentDelta.schemaVersion (fun schemaVersion =>
    (reads_readUint32 truncated).field (fun c => UInt32.ofNat c.data.length) (fun length =>
    (reads_readPayload (limits.maxComponentBytes.toNat % 2 ^ 32) length.toNat).bind
      ComponentDelta.data (fun data _ =>
    Reads.pure (⟨componentOfCode operation, typeID, schemaVersion, data⟩ : ComponentDelta))
      (by rintro _ _ rfl; rfl))
      (by rintro length c ⟨⟨-, h⟩, -⟩; simp [h]))
      (by rintro _ c ⟨-, h⟩; rw [h]))
      (by rintro _ c ⟨-, h⟩; rw [h]))
      (by rintro _ c ⟨-, h⟩; rw [h]; simp)
  refine h.congr (fun c => ?_) fun c hc => ?_
  · constructor
    · rintro ⟨hoperation, hmax, hlength⟩
      have hnat : (UInt32.ofNat c.data.length).toNat = c.data.length :=
        UInt32.toNat_ofNat_of_lt' hlength
      refine ⟨⟨hnat.symm ▸ hmax, hnat.symm⟩, ?_⟩
      rw [hoperation]
    rintro ⟨⟨hmax, hlength⟩, hc⟩
    refine ⟨?_, hlength ▸ hmax, ?_⟩
    · exact (congrArg ComponentDelta.operation hc).symm
    · exact hlength ▸ UInt32.toNat_lt _
  · obtain ⟨⟨-, hlength⟩, -⟩ := hc
    simp only [componentBytes, ← hlength, id, append_nil]

theorem reads_readObject : Reads (readObject limits) objectBytes (ObjectFits limits) := by
  have h :=
    (reads_readUint8 truncated).field (fun o : ObjectDelta => objectCode o.operation)
      (fun operation =>
    (reads_readUint16 truncated).field (fun o => o.ref.id) (fun id =>
    (reads_readUint16 truncated).field (fun o => o.ref.generation) (fun generation =>
    (reads_readUint16 truncated).field ObjectDelta.archetype (fun archetype =>
    (reads_readUint16 truncated).field (fun o => ofNat o.components.length)
      (fun componentCount =>
    (((reads_readComponent limits).many componentCount.toNat).bind ObjectDelta.components
      (fun components _ =>
    Reads.pure (⟨objectOfCode operation, ⟨id, generation⟩, archetype, components⟩ : ObjectDelta))
      (by rintro _ _ rfl; rfl)).check
      (c := doubled limits.maxComponentsPerObject < componentCount.toNat)
      (e := ReplicationError.componentLimit))
      (by rintro _ o ⟨-, ⟨h, -⟩, -⟩; simp [h]))
      (by rintro _ o ⟨-, -, h⟩; rw [h]))
      (by rintro _ o ⟨-, -, h⟩; rw [h]))
      (by rintro _ o ⟨-, -, h⟩; rw [h]))
      (by rintro _ o ⟨-, -, h⟩; rw [h]; simp)
  refine h.congr (fun o => ?_) fun o ho => ?_
  · constructor
    · rintro ⟨hoperation, hmax, hlength, hcomponents⟩
      have hnat : (ofNat o.components.length).toNat = o.components.length :=
        toNat_ofNat_of_lt' hlength
      refine ⟨not_lt.mpr (hnat.symm ▸ hmax), ⟨hnat.symm, hcomponents⟩, ?_⟩
      rw [hoperation]
    rintro ⟨hmax, ⟨hlength, hcomponents⟩, ho⟩
    refine ⟨?_, ?_, ?_, hcomponents⟩
    · exact (congrArg ObjectDelta.operation ho).symm
    · exact hlength ▸ not_lt.mp hmax
    · exact hlength ▸ toNat_lt _
  · obtain ⟨-, ⟨hlength, -⟩, -⟩ := ho
    simp only [objectBytes, objectHeader, ← hlength, append_nil, append_assoc]

theorem reads_readFrame : Reads (readFrame limits) frameBytes (FrameFits limits) := by
  have h := (reads_readUint32 truncated).field (fun _ : DeltaFrame => frameMagic) (fun magic =>
    (reads_readUint16 truncated).field (fun _ => protocolVersion) (fun protocol =>
    (reads_readUint8 truncated).field (fun f => kindCode f.kind) (fun kind =>
    (reads_readUint8 truncated).field (fun _ => 0) (fun reserved =>
    (reads_readUint64 truncated).field (fun f => f.roomID) (fun roomID =>
    (reads_readUint32 truncated).field (fun f => f.epoch) (fun epoch =>
    (reads_readUint32 truncated).field (fun f => f.tick) (fun tick =>
    (reads_readUint32 truncated).field (fun f => f.baseTick) (fun baseTick =>
    (reads_readUint16 truncated).field (fun f => f.schemaVersion) (fun schemaVersion =>
    (reads_readUint16 truncated).field (fun f => ofNat f.objects.length) (fun objectCount =>
    ((((reads_readObject limits).many objectCount.toNat).bind DeltaFrame.objects
      (fun objects _ =>
    Reads.pure (⟨⟨roomID, epoch, tick, schemaVersion⟩, kindOfCode kind, baseTick, objects⟩ :
      DeltaFrame))
      (by rintro _ _ rfl; rfl)).check (c := doubled limits.maxObjects < objectCount.toNat)
      (e := ReplicationError.objectLimit)).check
      (c := magic ≠ frameMagic ∨ protocol ≠ protocolVersion ∨ reserved ≠ 0)
      (e := ReplicationError.invalidFrame "unsupported header"))
      (by rintro _ f ⟨-, -, ⟨h, -⟩, -⟩; simp [h]))
      (by rintro _ f ⟨-, -, -, h⟩; rw [h]))
      (by rintro _ f ⟨-, -, -, h⟩; rw [h]))
      (by rintro _ f ⟨-, -, -, h⟩; rw [h]))
      (by rintro _ f ⟨-, -, -, h⟩; rw [h]))
      (by rintro _ f ⟨-, -, -, h⟩; rw [h]))
      (by rintro _ f ⟨h, -⟩; push Not at h; exact h.2.2.symm))
      (by rintro _ f ⟨-, -, -, h⟩; rw [h]; simp))
      (by rintro _ f ⟨h, -⟩; push Not at h; exact h.2.1.symm))
      (by rintro _ f ⟨h, -⟩; push Not at h; exact h.1.symm)
  refine h.congr (fun f => ?_) fun f hf => ?_
  · constructor
    · rintro ⟨hkind, hmax, hlength, hobjects⟩
      have hnat : (ofNat f.objects.length).toNat = f.objects.length := toNat_ofNat_of_lt' hlength
      refine ⟨by simp, not_lt.mpr (hnat.symm ▸ hmax), ⟨hnat.symm, hobjects⟩, ?_⟩
      rw [hkind]
    rintro ⟨-, hmax, ⟨hlength, hobjects⟩, hf⟩
    refine ⟨?_, ?_, ?_, hobjects⟩
    · exact (congrArg DeltaFrame.kind hf).symm
    · exact hlength ▸ not_lt.mp hmax
    · exact hlength ▸ toNat_lt _
  · obtain ⟨-, -, ⟨hlength, -⟩, -⟩ := hf
    simp only [frameBytes, frameHeader, ← hlength, append_nil, append_assoc]
    rfl

variable {data : List UInt8} {limits : Limits} {frame : DeltaFrame}

theorem decodeFrame_eq_ok_iff :
    decodeFrame data limits = .ok frame ↔
      data = frameBytes frame ∧ data.length ≤ (normalizeLimits limits).maxFrameBytes ∧
        FrameFits (normalizeLimits limits) frame ∧
        validateDeltaFrame frame (normalizeLimits limits) = .ok () := by
  have hreads := reads_readFrame (normalizeLimits limits)
  constructor
  · intro h
    simp only [decodeFrame, bind_eq_ok, exists_unit, rejectIf_eq_ok, pure_eq_ok] at h
    obtain ⟨hsize, ⟨f, rest⟩, hread, hrest, hvalidate, rfl⟩ := h
    obtain ⟨hfits, hdata⟩ := hreads.exact _ _ _ hread
    push Not at hsize
    obtain rfl := not_not.mp hrest
    rw [append_nil] at hdata
    exact ⟨hdata, hsize.2, hfits, hvalidate⟩
  · rintro ⟨rfl, hsize, hfits, hvalidate⟩
    have hne : frameBytes frame ≠ [] := by
      intro h
      have := congrArg length h
      simp [frameBytes, frameHeader] at this
    have hread := hreads.back frame [] hfits
    rw [append_nil] at hread
    simp only [decodeFrame, bind_eq_ok, exists_unit, rejectIf_eq_ok, pure_eq_ok]
    exact ⟨by simpa [hne] using hsize, (frame, []), hread, by simp, hvalidate, rfl⟩

variable {buffer : List UInt8} {components : List ComponentDelta}

theorem encodeComponents_eq_ok (h : encodeComponents limits buffer components = .ok data) :
    data = buffer ++ components.flatMap componentBytes := by
  induction components generalizing buffer with
  | nil => simpa [encodeComponents, eq_comm] using h
  | cons component rest ih =>
    simp only [encodeComponents, bind_eq_ok, exists_unit, rejectIf_eq_ok] at h
    simp [ih h.2]

variable {objects : List ObjectDelta}

theorem encodeObjects_eq_ok (h : encodeObjects limits buffer objects = .ok data) :
    data = buffer ++ objects.flatMap objectBytes ∧ ∀ o ∈ objects, o.components.length ≤ 65535 := by
  induction objects generalizing buffer with
  | nil => simpa [encodeObjects, eq_comm] using h
  | cons object rest ih =>
    simp only [encodeObjects, bind_eq_ok, exists_unit, rejectIf_eq_ok, not_lt] at h
    obtain ⟨hcount, buffer', hcomponents, hrest⟩ := h
    obtain ⟨rfl, hall⟩ := ih hrest
    rw [encodeComponents_eq_ok hcomponents]
    refine ⟨by simp [objectBytes], ?_⟩
    rintro o (_ | ⟨_, ho⟩)
    · exact hcount
    · exact hall o ho

theorem encodeComponents_of_length
    (h : (buffer ++ components.flatMap componentBytes).length ≤ limits.maxFrameBytes) :
    encodeComponents limits buffer components =
      .ok (buffer ++ components.flatMap componentBytes) := by
  induction components generalizing buffer with
  | nil => simp [encodeComponents]
  | cons component rest ih =>
    rw [flatMap_cons, ← append_assoc] at h ⊢
    simp only [encodeComponents, bind_eq_ok, exists_unit, rejectIf_eq_ok]
    refine ⟨?_, ih h⟩
    rw [length_append] at h
    omega

theorem encodeObjects_of_length (hcount : ∀ o ∈ objects, o.components.length ≤ 65535)
    (h : (buffer ++ objects.flatMap objectBytes).length ≤ limits.maxFrameBytes) :
    encodeObjects limits buffer objects = .ok (buffer ++ objects.flatMap objectBytes) := by
  induction objects generalizing buffer with
  | nil => simp [encodeObjects]
  | cons object rest ih =>
    rw [flatMap_cons, objectBytes, ← append_assoc, ← append_assoc] at h ⊢
    simp only [encodeObjects, bind_eq_ok, exists_unit, rejectIf_eq_ok, not_lt]
    refine ⟨hcount object mem_cons_self, _, encodeComponents_of_length ?_,
      ih (fun o ho => hcount o (mem_cons_of_mem object ho)) h⟩
    rw [length_append] at h
    omega

theorem validateComponents_spec (h : validateComponents limits operation seen components = .ok ()) :
    ∀ c ∈ components, (c.operation = .set ∨ c.operation = .remove) ∧
      c.data.length ≤ limits.maxComponentBytes := by
  induction components generalizing seen with
  | nil => exact nofun
  | cons component rest ih =>
    simp only [validateComponents, bind_eq_ok, exists_unit, rejectIf_eq_ok] at h
    obtain ⟨hknown, -, -, -, -, hsize, hrest⟩ := h
    rintro c (_ | ⟨_, hc⟩)
    · exact ⟨or_iff_not_and_not.mpr fun hnot => hknown (.inr hnot), not_lt.mp hsize⟩
    · exact ih hrest c hc

theorem validateObjects_spec (h : validateObjects limits kind seen objects = .ok ()) :
    ∀ o ∈ objects, (o.operation = .create ∨ o.operation = .update ∨ o.operation = .remove) ∧
      o.components.length ≤ doubled limits.maxComponentsPerObject ∧
      ∀ c ∈ o.components, (c.operation = .set ∨ c.operation = .remove) ∧
        c.data.length ≤ limits.maxComponentBytes := by
  induction objects generalizing seen with
  | nil => exact nofun
  | cons object rest ih =>
    simp only [validateObjects, bind_eq_ok, exists_unit, rejectIf_eq_ok] at h
    obtain ⟨-, hknown, -, -, -, -, hcount, hcomponents, hrest⟩ := h
    rintro o (_ | ⟨_, ho⟩)
    · refine ⟨?_, not_lt.mp hcount, validateComponents_spec hcomponents⟩
      by_contra hnot
      push Not at hnot
      exact hknown hnot
    · exact ih hrest o ho

theorem FrameFits.of_validate (h32 : limits.maxComponentBytes < 2 ^ 32)
    (hvalidate : validateDeltaFrame frame limits = .ok ()) (hcount : frame.objects.length ≤ 65535)
    (hcounts : ∀ o ∈ frame.objects, o.components.length ≤ 65535) : FrameFits limits frame := by
  simp only [validateDeltaFrame, bind_eq_ok, exists_unit, rejectIf_eq_ok] at hvalidate
  obtain ⟨-, hkind, -, -, hmax, hobjects⟩ := hvalidate
  have hspec := validateObjects_spec hobjects
  refine ⟨?_, not_lt.mp hmax, by omega, ?_⟩
  · rcases or_iff_not_and_not.mpr hkind with h | h <;> rw [h] <;> decide
  intro o ho
  obtain ⟨hknown, hcomponents, hall⟩ := hspec o ho
  have hcount' := hcounts o ho
  refine ⟨?_, hcomponents, by omega, ?_⟩
  · rcases hknown with h | h | h <;> rw [h] <;> decide
  intro c hc
  obtain ⟨hoperation, hsize⟩ := hall c hc
  refine ⟨?_, by omega, by omega⟩
  rcases hoperation with h | h <;> rw [h] <;> decide

/-- The header, nine bytes for an object, and nine and the payload for a component. -/
def frameSize (frame : DeltaFrame) : Nat :=
  32 + (frame.objects.map fun object =>
    9 + (object.components.map fun component => 9 + component.data.length).sum).sum

theorem length_frameBytes (frame : DeltaFrame) : (frameBytes frame).length = frameSize frame := by
  have hcomponent : ∀ c, (componentBytes c).length = 9 + c.data.length := by
    intro c
    simp [componentBytes]
    omega
  have hobject : ∀ o, (objectBytes o).length =
      9 + (o.components.map fun c => 9 + c.data.length).sum := by
    intro o
    simp [objectBytes, objectHeader, length_flatMap, hcomponent]
    omega
  simp [frameBytes, frameHeader, frameSize, length_flatMap, hobject]
  omega

theorem frame_round_trip {frame : DeltaFrame} {limits : Limits} {data : List UInt8}
    (h32 : limits.maxComponentBytes < 2 ^ 32) (h : encodeFrame frame limits = .ok data) :
    decodeFrame data limits = .ok frame ↔
      frameSize frame ≤ (normalizeLimits limits).maxFrameBytes := by
  simp only [encodeFrame, bind_eq_ok, exists_unit, rejectIf_eq_ok, not_lt] at h
  obtain ⟨hvalidate, hcount, hobjects⟩ := h
  obtain ⟨hdata, hcounts⟩ := encodeObjects_eq_ok hobjects
  obtain rfl : data = frameBytes frame := hdata
  have hnormal : (normalizeLimits limits).maxComponentBytes < 2 ^ 32 := by
    simp only [normalizeLimits, orDefault]
    split
    · decide
    · exact h32
  rw [decodeFrame_eq_ok_iff, length_frameBytes]
  constructor
  · exact fun h => h.2.1
  · exact fun hsize => ⟨rfl, hsize, .of_validate hnormal hvalidate hcount hcounts, hvalidate⟩

theorem frame_round_trip_update :
    ∃ data, encodeFrame oneUpdate defaultLimits = .ok data ∧
      (decodeFrame data defaultLimits = .ok oneUpdate ↔
        frameSize oneUpdate ≤ (normalizeLimits defaultLimits).maxFrameBytes) := by
  have hencode : encodeFrame oneUpdate defaultLimits = .ok (frameBytes oneUpdate) := by
    decide +kernel
  exact ⟨_, hencode, frame_round_trip (by decide) hencode⟩

/-- An update that fills the frame, and a removal behind it. -/
def updateAndRemove : DeltaFrame :=
  { oneUpdate with
    objects := oneUpdate.objects ++
      [{ operation := .remove, ref := ⟨2, 1⟩, archetype := 0, components := [] }] }

def smallFrames : Limits :=
  { defaultLimits with maxFrameBytes := 52 }

theorem removal_past_the_limit :
    smallFrames.maxComponentBytes < 2 ^ 32 ∧
      encodeFrame updateAndRemove smallFrames = .ok (frameBytes updateAndRemove) ∧
      decodeFrame (frameBytes updateAndRemove) smallFrames = .error .frameTooLarge := by
  decide +kernel

theorem encoding_canonical {data : List UInt8} {limits : Limits} {frame : DeltaFrame}
    (h : decodeFrame data limits = .ok frame) :
    encodeFrame frame limits = .ok data ∧
      (∀ data', decodeFrame data' limits = .ok frame → data' = data) ∧
      ∀ data' frame', decodeFrame data' limits = .ok frame' →
        data' <+: data ∨ data <+: data' → data' = data := by
  obtain ⟨hdata, hsize, hfits, hvalidate⟩ := decodeFrame_eq_ok_iff.mp h
  refine ⟨?_, ?_, ?_⟩
  · rw [hdata] at hsize ⊢
    simp only [encodeFrame, bind_eq_ok, exists_unit, rejectIf_eq_ok, not_lt]
    refine ⟨hvalidate, Nat.le_of_lt_succ hfits.length, encodeObjects_of_length ?_ hsize⟩
    exact fun o ho => Nat.le_of_lt_succ (hfits.objects o ho).length
  · intro data' h'
    rw [hdata]
    exact (decodeFrame_eq_ok_iff.mp h').1
  · intro data' frame' h' hextends
    obtain ⟨rfl, -, hfits', -⟩ := decodeFrame_eq_ok_iff.mp h'
    have hreads := reads_readFrame (normalizeLimits limits)
    rw [hdata] at hextends ⊢
    rcases hextends with hpre | hpre
    · exact hreads.eq_of_extends hfits' hfits hpre
    · exact (hreads.eq_of_extends hfits hfits' hpre).symm

theorem encoding_canonical_update :
    decodeFrame (frameBytes oneUpdate) defaultLimits = .ok oneUpdate ∧
      encodeFrame oneUpdate defaultLimits = .ok (frameBytes oneUpdate) ∧
      (∀ data', decodeFrame data' defaultLimits = .ok oneUpdate → data' = frameBytes oneUpdate) ∧
      ∀ data' frame', decodeFrame data' defaultLimits = .ok frame' →
        data' <+: frameBytes oneUpdate ∨ frameBytes oneUpdate <+: data' →
          data' = frameBytes oneUpdate := by
  have hdecode : decodeFrame (frameBytes oneUpdate) defaultLimits = .ok oneUpdate := by
    decide +kernel
  exact ⟨hdecode, encoding_canonical hdecode⟩

end CubeCore.FrameCodec
