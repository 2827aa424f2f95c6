import CubeCore.Checked
import Mathlib.Algebra.Group.Nat.Defs

namespace CubeCore.EntityIDs

open Checked BitVec

def entityCategoryMask : BitVec 64 := (1 <<< 2) - 1
def entityKindMask : BitVec 64 := (1 <<< 8) - 1
def entityRemoteMask : BitVec 64 := 1
def uniqueIDMask : BitVec 64 := (1 <<< 52) - 1
def entityIDValueMask : BitVec 64 := (1 <<< 63) - 1
def entityKindShift : Nat := 2
def uniqueIDShift : Nat := 10
def entityRemoteShift : Nat := 62

/-- What is registered for the kinds. -/
structure Registry where
  category : BitVec 8 → Option (BitVec 8)
  remoteCapable : BitVec 8 → Bool

inductive IDError where
  | invalidEntityID (detail : String)
  | invalidCategory
  | kindNone
deriving DecidableEq

structure EntityIDMeta where
  inputID : BitVec 64
  uniqueID : BitVec 64
  fullID : BitVec 64
  category : BitVec 8
  kind : BitVec 8
  remoteCapable : Bool

def getEntityKindFromID (id : BitVec 64) : BitVec 8 :=
  ((id >>> entityKindShift) &&& entityKindMask).setWidth 8

def getEntityRemoteFromID (id : BitVec 64) : Bool :=
  (id >>> entityRemoteShift) &&& entityRemoteMask ≠ 0#64

def setRemoteCapableBit (id : BitVec 64) : BitVec 64 :=
  id ||| (entityRemoteMask <<< entityRemoteShift)

namespace Registry

variable (r : Registry)

def resolveEntityKindCategory (kind : BitVec 8) : Except IDError (BitVec 8) :=
  if kind = 0#8 then .error .kindNone
  else match r.category kind with
    | none => .error (.invalidEntityID s!"kind {kind.toNat} category is not registered")
    | some category => .ok category

/-- The categories it panics on were refused before. -/
def makeEntityID (uniqueID : BitVec 64) (category kind : BitVec 8) (remoteCapable : Bool) :
    BitVec 64 :=
  let id := ((uniqueID &&& uniqueIDMask) <<< uniqueIDShift) |||
    ((kind.setWidth 64 &&& entityKindMask) <<< entityKindShift) |||
    (category.setWidth 64 &&& entityCategoryMask)
  if remoteCapable || kind ≠ 0#8 && r.remoteCapable kind then
    id ||| (entityRemoteMask <<< entityRemoteShift)
  else id

def buildEntityID (uniqueID : BitVec 64) (kind : BitVec 8) : Except IDError (BitVec 64) := do
  let category ← r.resolveEntityKindCategory kind
  rejectIf (uniqueID.toInt ≤ 0 ∨ uniqueIDMask < uniqueID)
    (.invalidEntityID s!"unique id {uniqueID.toInt} outside 1..{uniqueIDMask.toNat}")
  rejectIf (entityCategoryMask < category.setWidth 64) .invalidCategory
  rejectIf (category = 0#8) (.invalidEntityID "category is none")
  return r.makeEntityID uniqueID category kind (kind ≠ 0#8 && r.remoteCapable kind)

def resolveEntityID (id : BitVec 64) : EntityIDMeta :=
  let v := id &&& entityIDValueMask
  let kind := getEntityKindFromID id
  let capable := kind ≠ 0#8 && r.remoteCapable kind
  { inputID := id
    uniqueID := (v >>> uniqueIDShift) &&& uniqueIDMask
    fullID := if capable then setRemoteCapableBit id else id
    category := (v &&& entityCategoryMask).setWidth 8
    kind := kind
    remoteCapable := capable || getEntityRemoteFromID id }

def normalizeFullID (id : BitVec 64) (kind : BitVec 8) : Except IDError (BitVec 64) := do
  rejectIf (id = 0#64) (.invalidEntityID "empty id")
  let resolved := r.resolveEntityID id
  rejectIf (kind ≠ 0#8 ∧ resolved.kind ≠ kind)
    (.invalidEntityID s!"id {id.toInt} kind={resolved.kind.toNat} want={kind.toNat}")
  rejectIf (resolved.category = 0#8) (.invalidEntityID s!"id {id.toInt} has empty category")
  rejectIf (resolved.kind = 0#8) (.invalidEntityID s!"id {id.toInt} has empty kind")
  rejectIf (resolved.uniqueID = 0#64) (.invalidEntityID s!"id {id.toInt} has empty unique id")
  let category ← r.resolveEntityKindCategory resolved.kind
  let found := resolved.category.toNat
  rejectIf (resolved.category ≠ category) (.invalidEntityID
    s!"id {id.toInt} category={found} want={category.toNat} for kind={resolved.kind.toNat}")
  return resolved.fullID

end Registry

variable {r : Registry} {id full uniqueID : BitVec 64} {kind category : BitVec 8}

theorem getLsbD_mask {mask : BitVec 64} (n : Nat) (h : mask = BitVec.ofNat 64 (2 ^ n - 1))
    (i : Nat) : mask.getLsbD i = decide (i < 64 ∧ i < n) := by
  rw [h, getLsbD_ofNat, Nat.testBit_two_pow_sub_one, Bool.decide_and]

theorem getLsbD_kindMask : ∀ i, entityKindMask.getLsbD i = decide (i < 64 ∧ i < 8) :=
  getLsbD_mask 8 rfl

theorem getLsbD_categoryMask : ∀ i, entityCategoryMask.getLsbD i = decide (i < 64 ∧ i < 2) :=
  getLsbD_mask 2 rfl

theorem getLsbD_uniqueIDMask : ∀ i, uniqueIDMask.getLsbD i = decide (i < 64 ∧ i < 52) :=
  getLsbD_mask 52 rfl

theorem getLsbD_remoteMask : ∀ i, entityRemoteMask.getLsbD i = decide (i < 64 ∧ i < 1) :=
  getLsbD_mask 1 rfl

theorem getLsbD_valueMask : ∀ i, entityIDValueMask.getLsbD i = decide (i < 64 ∧ i < 63) :=
  getLsbD_mask 63 (by decide)

theorem getLsbD_kind (id : BitVec 64) (i : Nat) :
    (getEntityKindFromID id).getLsbD i = (decide (i < 8) && id.getLsbD (2 + i)) := by
  simp [getEntityKindFromID, entityKindShift, getLsbD_kindMask]
  grind

theorem getLsbD_uniqueID (r : Registry) (id : BitVec 64) (i : Nat) :
    (r.resolveEntityID id).uniqueID.getLsbD i = (decide (i < 52) && id.getLsbD (10 + i)) := by
  simp [Registry.resolveEntityID, uniqueIDShift, getLsbD_uniqueIDMask, getLsbD_valueMask]
  grind

theorem getLsbD_category (r : Registry) (id : BitVec 64) (i : Nat) :
    (r.resolveEntityID id).category.getLsbD i = (decide (i < 2) && id.getLsbD i) := by
  simp [Registry.resolveEntityID, getLsbD_categoryMask, getLsbD_valueMask]
  grind

theorem remote_eq (id : BitVec 64) : getEntityRemoteFromID id = id.getLsbD 62 := by
  have h := and_one_eq_setWidth_ofBool_getLsbD (x := id >>> 62)
  rw [getLsbD_ushiftRight] at h
  rw [getEntityRemoteFromID, entityRemoteShift, show entityRemoteMask = 1#64 from rfl, h]
  cases id.getLsbD (62 + 0) <;> rfl

theorem getLsbD_setRemote (id : BitVec 64) (i : Nat) :
    (setRemoteCapableBit id).getLsbD i = (id.getLsbD i || decide (i = 62)) := by
  simp [setRemoteCapableBit, entityRemoteShift, getLsbD_remoteMask]
  grind

theorem getLsbD_make (capable : Bool) (i : Nat) :
    (r.makeEntityID uniqueID category kind capable).getLsbD i =
      if i < 2 then category.getLsbD i
      else if i < 10 then kind.getLsbD (i - 2)
      else if i < 62 then uniqueID.getLsbD (i - 10)
      else decide (i = 62) && (capable || kind ≠ 0#8 && r.remoteCapable kind) := by
  rw [Registry.makeEntityID]
  generalize (capable || kind ≠ 0#8 && r.remoteCapable kind) = capable
  simp only [entityKindShift, uniqueIDShift, entityRemoteShift]
  split <;> simp [getLsbD_kindMask, getLsbD_categoryMask, getLsbD_uniqueIDMask,
    getLsbD_remoteMask] <;> grind

theorem getLsbD_of_lt {w n i : Nat} {x : BitVec w} (h : x.toNat < 2 ^ n) (hi : n ≤ i) :
    x.getLsbD i = false :=
  Nat.testBit_lt_two_pow (Nat.lt_of_lt_of_le h (Nat.pow_le_pow_right (by decide) hi))

theorem pos_iff : 0 < id.toInt ↔ id ≠ 0#64 ∧ id.getLsbD 63 = false := by
  have hsign : id.msb = decide (id.toInt < 0) := msb_eq_toInt
  have hzero : id = 0#64 ↔ id.toInt = 0 := toInt_inj.symm
  rw [msb_eq_getLsbD_last] at hsign
  rw [hsign, ne_eq, hzero, decide_eq_false_iff_not]
  omega

theorem resolveEntityKindCategory_eq_ok :
    r.resolveEntityKindCategory kind = .ok category ↔
      kind ≠ 0#8 ∧ r.category kind = some category := by
  unfold Registry.resolveEntityKindCategory
  split_ifs with hzero
  · simp [hzero]
  · cases r.category kind <;> simp [hzero]

theorem buildEntityID_eq_ok : r.buildEntityID uniqueID kind = .ok full ↔
    ∃ category, (kind ≠ 0#8 ∧ r.category kind = some category) ∧
      (uniqueID ≠ 0#64 ∧ uniqueID.toNat < 2 ^ 52) ∧ category.toNat < 2 ^ 2 ∧ category ≠ 0#8 ∧
      r.makeEntityID uniqueID category kind (kind ≠ 0#8 && r.remoteCapable kind) = full := by
  have hunique : ¬ (uniqueID.toInt ≤ 0 ∨ uniqueIDMask < uniqueID) ↔
      uniqueID ≠ 0#64 ∧ uniqueID.toNat < 2 ^ 52 := by
    rw [lt_def, show uniqueIDMask.toNat = 2 ^ 52 - 1 from rfl, ne_eq, toNat_eq,
      toInt_eq_toNat_cond, toNat_ofNat]
    split <;> omega
  have hcategory (category : BitVec 8) :
      ¬ entityCategoryMask < category.setWidth 64 ↔ category.toNat < 2 ^ 2 := by
    rw [lt_def, show entityCategoryMask.toNat = 3 from rfl, toNat_setWidth]
    omega
  simp only [Registry.buildEntityID, bind_eq_ok, exists_unit, rejectIf_eq_ok, pure_eq_ok,
    resolveEntityKindCategory_eq_ok, hunique, hcategory]

theorem resolve_built (h : r.buildEntityID uniqueID kind = .ok full) :
    ∃ category, r.category kind = some category ∧ full.getLsbD 63 = false ∧
      r.resolveEntityID full = ⟨full, uniqueID, full, category, kind, r.remoteCapable kind⟩ := by
  obtain ⟨category, ⟨hne, hregistered⟩, ⟨-, huniqueLt⟩, hcategoryLt, -, hmake⟩ :=
    buildEntityID_eq_ok.mp h
  have hbits (i : Nat) := hmake ▸ getLsbD_make (r := r) (kind ≠ 0#8 && r.remoteCapable kind) i
  have hkind : getEntityKindFromID full = kind := by
    refine eq_of_getLsbD_eq fun i hi => ?_
    grind [getLsbD_kind]
  have hunique : (r.resolveEntityID full).uniqueID = uniqueID := by
    refine eq_of_getLsbD_eq fun i hi => ?_
    grind [getLsbD_uniqueID, getLsbD_of_lt huniqueLt (i := i)]
  have hcategory : (r.resolveEntityID full).category = category := by
    refine eq_of_getLsbD_eq fun i hi => ?_
    grind [getLsbD_category, getLsbD_of_lt hcategoryLt (i := i)]
  have hremote := (remote_eq full).trans (hbits 62)
  have hset (hcapable : r.remoteCapable kind = true) : setRemoteCapableBit full = full := by
    refine eq_of_getLsbD_eq fun i hi => ?_
    grind [getLsbD_setRemote]
  refine ⟨category, hregistered, hbits 63, ?_⟩
  simp only [Registry.resolveEntityID] at hunique hcategory ⊢
  simpa [hkind, hunique, hcategory, hremote, hne] using hset

theorem normalizeFullID_eq_ok : r.normalizeFullID id kind = .ok full ↔
    id ≠ 0#64 ∧ ¬ (kind ≠ 0#8 ∧ (r.resolveEntityID id).kind ≠ kind) ∧
      (r.resolveEntityID id).category ≠ 0#8 ∧ (r.resolveEntityID id).kind ≠ 0#8 ∧
      (r.resolveEntityID id).uniqueID ≠ 0#64 ∧
      r.category (r.resolveEntityID id).kind = some (r.resolveEntityID id).category ∧
      (r.resolveEntityID id).fullID = full := by
  simp only [Registry.normalizeFullID, bind_eq_ok, exists_unit, rejectIf_eq_ok, pure_eq_ok,
    resolveEntityKindCategory_eq_ok]
  grind

theorem built_of_accepted (h : r.normalizeFullID id kind = .ok full) (hsign : 0 < id.toInt)
    (hremote : getEntityRemoteFromID id = true → r.remoteCapable (getEntityKindFromID id) = true) :
    r.buildEntityID (r.resolveEntityID id).uniqueID (r.resolveEntityID id).kind = .ok full := by
  obtain ⟨-, -, hcategory, hkind, hunique, hregistered, rfl⟩ := normalizeFullID_eq_ok.mp h
  refine buildEntityID_eq_ok.mpr ⟨_, ⟨hkind, hregistered⟩, ⟨hunique, ?_⟩, ?_, hcategory, ?_⟩
  · exact Nat.lt_pow_two_of_testBit _ fun i hi => (getLsbD_uniqueID r id i).trans (by grind)
  · exact Nat.lt_pow_two_of_testBit _ fun i hi => (getLsbD_category r id i).trans (by grind)
  · refine eq_of_getLsbD_eq fun i hi => ?_
    have hlast := (pos_iff.mp hsign).2
    rw [remote_eq] at hremote
    rw [getLsbD_make, getLsbD_category, getLsbD_uniqueID]
    change getEntityKindFromID id ≠ 0#8 at hkind
    simp only [Registry.resolveEntityID, getLsbD_kind, ne_eq, hkind, not_false_eq_true,
      decide_true, Bool.true_and, Bool.or_self]
    cases hcapable : r.remoteCapable (getEntityKindFromID id) <;> grind [getLsbD_setRemote]

theorem normalized_of_built (h : r.normalizeFullID id kind = .ok full)
    (hbuilt : r.buildEntityID (r.resolveEntityID id).uniqueID (r.resolveEntityID id).kind =
      .ok full) : 0 < full.toInt ∧ r.normalizeFullID full kind = .ok full := by
  obtain ⟨category, hregistered, hlast, hresolve⟩ := resolve_built hbuilt
  obtain ⟨-, hwant, hcategory, hkind, hunique, hcategory', -⟩ := normalizeFullID_eq_ok.mp h
  have hne : full ≠ 0#64 := by
    rintro rfl
    exact hunique (congrArg EntityIDMeta.uniqueID hresolve).symm
  cases hcategory'.symm.trans hregistered
  refine ⟨pos_iff.mpr ⟨hne, hlast⟩, ?_⟩
  rw [normalizeFullID_eq_ok, hresolve]
  exact ⟨hne, hwant, hcategory, hkind, hunique, hregistered, rfl⟩

theorem getLsbD_fullID (r : Registry) (id : BitVec 64) (i : Nat) :
    (r.resolveEntityID id).fullID.getLsbD i = (id.getLsbD i || decide (i = 62) &&
      (getEntityKindFromID id ≠ 0#8 && r.remoteCapable (getEntityKindFromID id))) := by
  simp only [Registry.resolveEntityID]
  split <;> simp_all [getLsbD_setRemote]

theorem accepted_of_built (h : r.normalizeFullID id kind = .ok full)
    (hbuilt : r.buildEntityID (r.resolveEntityID id).uniqueID (r.resolveEntityID id).kind =
      .ok full) :
    0 < id.toInt ∧
      (getEntityRemoteFromID id = true → r.remoteCapable (getEntityKindFromID id) = true) := by
  obtain ⟨hne, -, -, -, -, -, rfl⟩ := normalizeFullID_eq_ok.mp h
  obtain ⟨category, -, hlast, hresolve⟩ := resolve_built hbuilt
  constructor
  · rw [getLsbD_fullID, Bool.or_eq_false_iff] at hlast
    exact pos_iff.mpr ⟨hne, hlast.1⟩
  · intro hremote
    have hcapable := congrArg EntityIDMeta.remoteCapable hresolve
    refine hcapable.symm.trans ?_
    simp only [Registry.resolveEntityID, Bool.or_eq_true]
    right
    rw [remote_eq] at hremote ⊢
    exact (getLsbD_fullID r id 62).trans (by simp [hremote])

/-- An accepted id is canonical exactly when it is positive and has the remote bit only with a
remote kind. -/
theorem normalized_canonical_iff (h : r.normalizeFullID id kind = .ok full) :
    (0 < full.toInt ∧
      r.buildEntityID (r.resolveEntityID id).uniqueID (r.resolveEntityID id).kind = .ok full ∧
      r.normalizeFullID full kind = .ok full ↔
      0 < id.toInt ∧
        (getEntityRemoteFromID id = true → r.remoteCapable (getEntityKindFromID id) = true)) ∧
    ∀ uniqueID kind built, r.buildEntityID uniqueID kind = .ok built →
      (∃ category, r.category kind = some category ∧ r.resolveEntityID built =
        ⟨built, uniqueID, built, category, kind, r.remoteCapable kind⟩) ∧
      ∀ uniqueID' kind', r.buildEntityID uniqueID' kind' = .ok built →
        uniqueID' = uniqueID ∧ kind' = kind := by
  refine ⟨⟨fun hcanonical => accepted_of_built h hcanonical.2.1, ?_⟩,
    fun uniqueID kind built hbuilt => ?_⟩
  · rintro ⟨hsign, hremote⟩
    have hbuilt := built_of_accepted h hsign hremote
    obtain ⟨hpos, hagain⟩ := normalized_of_built h hbuilt
    exact ⟨hpos, hbuilt, hagain⟩
  obtain ⟨category, hregistered, -, hresolve⟩ := resolve_built hbuilt
  refine ⟨⟨category, hregistered, hresolve⟩, fun uniqueID' kind' hbuilt' => ?_⟩
  obtain ⟨category', -, -, hresolve'⟩ := resolve_built hbuilt'
  have heq := hresolve'.symm.trans hresolve
  exact ⟨congrArg EntityIDMeta.uniqueID heq, congrArg EntityIDMeta.kind heq⟩

/-- Kind 1 is registered with category 1 and is not remote capable. -/
def localHeroes : Registry where
  category := fun kind => if kind = 1 then some 1 else none
  remoteCapable := fun _ => false

theorem normalized_canonical_hero :
    localHeroes.normalizeFullID 7173 1 = .ok 7173 ∧ localHeroes.buildEntityID 7 1 = .ok 7173 := by
  have h : localHeroes.normalizeFullID 7173 1 = .ok 7173 := rfl
  exact ⟨h, ((normalized_canonical_iff h).1.mpr ⟨by decide, by decide⟩).2.1⟩

/-- The same unique id and kind with the remote bit, or with the sign bit. -/
theorem accepted_not_canonical :
    localHeroes.normalizeFullID 0x4000000000001C05 1 = .ok 0x4000000000001C05 ∧
      localHeroes.normalizeFullID 0x8000000000001C05 1 = .ok 0x8000000000001C05 ∧
      (0x8000000000001C05 : BitVec 64).toInt < 0 ∧ localHeroes.buildEntityID 7 1 = .ok 7173 :=
  ⟨rfl, rfl, by decide, rfl⟩

end CubeCore.EntityIDs
