import CubeCore.FramePreparation

namespace CubeCore.LevelOfDetail

open Checked ReplicationSnapshot ReplicationSession FramePreparation List Nat

def maxLODLevel : UInt8 := 7
def lodCulled : UInt8 := 255
def priorityCosmetic : UInt8 := 1
def priorityCritical : UInt8 := 5

/-- `LODMask.Includes`. A mask of zero stands for all levels. -/
def includes (mask level : UInt8) : Bool :=
  level ≤ maxLODLevel && (mask = 0 || mask &&& (1 <<< level) ≠ 0)

structure LODDecision where
  level : UInt8
  minPriority : UInt8
  maxRateHz : UInt8

def invalidLOD (detail : String) : ReplicationError :=
  .projector ("replication: invalid level of detail configuration: " ++ detail)

def LODDecision.validate (decision : LODDecision) : Except ReplicationError Unit := do
  rejectIf (decision.level ≠ lodCulled ∧ maxLODLevel < decision.level)
    (invalidLOD ("level " ++ toString decision.level))
  rejectIf (decision.minPriority ≠ 0 ∧ (decision.minPriority < priorityCosmetic ∨
    priorityCritical < decision.minPriority))
    (invalidLOD ("minimum priority " ++ toString decision.minPriority))

/-- What the projector reads of the policy of a registered component. -/
structure ReplicationPolicy where
  priority : UInt8
  maxRateHz : UInt8

/-- The selector sees the projected snapshot. `policies` are the component levels, zero for none. -/
structure LODProjector where
  registry : UInt16 → Option ReplicationPolicy
  selector : ProjectionContext → Snapshot → ObjectState → Except ReplicationError LODDecision
  upstream : Projector
  policies : UInt16 → UInt8
  snapshotRateHz : UInt8
  alwaysFreshAtOrAbove : UInt8

open LODProjector

/-- The index is a map, so the last object with a ref is found. -/
def indexLODObjects (previous : Option Snapshot) (current : Snapshot) (ref : ObjectRef) :
    Option ObjectState := do
  let previous ← previous
  if previous.roomID ≠ current.roomID ∨ previous.epoch ≠ current.epoch ∨
      previous.schemaVersion ≠ current.schemaVersion then none
  else previous.objects.reverse.find? (·.ref = ref)

def findLODComponent (components : List ComponentState) (typeID : UInt16) : Option ComponentState :=
  components.find? (·.typeID = typeID)

namespace LODProjector

variable (p : LODProjector)

def rate (policy : ReplicationPolicy) (decision : LODDecision) : UInt8 :=
  if policy.priority < p.alwaysFreshAtOrAbove ∧ decision.maxRateHz ≠ 0 ∧
      (policy.maxRateHz = 0 ∨ decision.maxRateHz < policy.maxRateHz) then decision.maxRateHz
  else policy.maxRateHz

def interval (policy : ReplicationPolicy) (decision : LODDecision) : Nat :=
  (p.snapshotRateHz.toNat + (p.rate policy decision).toNat - 1) / (p.rate policy decision).toNat

def refreshDue (tick : UInt32) (policy : ReplicationPolicy) (decision : LODDecision) : Bool :=
  p.rate policy decision = 0 || p.snapshotRateHz ≤ p.rate policy decision ||
    tick.toNat % p.interval policy decision = 0

def omits (decision : LODDecision) (component : ComponentState) : Bool :=
  match p.registry component.typeID with
  | none => false
  | some policy => !includes (p.policies component.typeID) decision.level ||
      decision.minPriority ≠ 0 && policy.priority < decision.minPriority

variable (context : ProjectionContext)

/-- What is sent for a component that is not left out. -/
def selected (projected : Snapshot) (decision : LODDecision) (object : ObjectState)
    (component : ComponentState) : ComponentState :=
  match p.registry component.typeID, indexLODObjects context.previous projected object.ref with
  | some policy, some previousObject =>
    if context.fullRefresh = false ∧ previousObject.archetype = object.archetype ∧
        p.refreshDue projected.tick policy decision = false then
      match findLODComponent previousObject.components component.typeID with
      | some old => if old.schemaVersion = component.schemaVersion then old else component
      | none => component
    else component
  | _, _ => component

def filtered (projected : Snapshot) (decision : LODDecision) (object : ObjectState) : ObjectState :=
  let components := object.components.filter fun c => !p.omits decision c
  { object with components := components.map (p.selected context projected decision object) }

def projectObjects (context : ProjectionContext) (projected : Snapshot) :
    List ObjectState → Except ReplicationError (List ObjectState)
  | [] => .ok []
  | object :: rest => do
    let decision ← p.selector context projected object
    decision.validate
    let objects ← projectObjects context projected rest
    return if decision.level = lodCulled then objects
      else p.filtered context projected decision object :: objects

def projectWithContext (snapshot : Snapshot) : Except ReplicationError Snapshot := do
  let projected ← p.upstream.project context snapshot
  let objects ← p.projectObjects context projected projected.objects
  return { projected with objects }

end LODProjector

variable {p : LODProjector} {context : ProjectionContext} {projected : Snapshot}
  {decision : LODDecision} {object o' : ObjectState} {c c' : ComponentState}

theorem mem_projectObjects (h : p.projectObjects context projected objects = .ok out)
    (ho : o' ∈ out) :
    ∃ object ∈ objects, ∃ decision, p.selector context projected object = .ok decision ∧
      decision.level ≠ lodCulled ∧ o' = p.filtered context projected decision object := by
  induction objects generalizing out with
  | nil =>
    obtain rfl := Except.ok.inj h
    cases ho
  | cons object rest ih =>
    simp only [projectObjects, bind_eq_ok, exists_unit, pure_eq_ok] at h
    obtain ⟨decision, hdecision, -, objects, hobjects, rfl⟩ := h
    have hcases : decision.level ≠ lodCulled ∧ o' = p.filtered context projected decision object ∨
        o' ∈ objects := by
      split at ho
      · exact .inr ho
      · exact (mem_cons.mp ho).imp_left fun heq => ⟨‹_›, heq⟩
    rcases hcases with hnew | hold
    · exact ⟨object, mem_cons_self, decision, hdecision, hnew⟩
    · obtain ⟨o, hmem, hfrom⟩ := ih hobjects hold
      exact ⟨o, mem_cons_of_mem _ hmem, hfrom⟩

theorem projectWithContext_eq_ok (h : p.projectWithContext context snapshot = .ok out) :
    ∃ projected, p.upstream.project context snapshot = .ok projected ∧
      out.toSnapshotMeta = projected.toSnapshotMeta ∧
      ∀ o' ∈ out.objects, ∃ object ∈ projected.objects, ∃ decision,
        p.selector context projected object = .ok decision ∧ decision.level ≠ lodCulled ∧
        o' = p.filtered context projected decision object := by
  simp only [projectWithContext, bind_eq_ok, pure_eq_ok] at h
  obtain ⟨projected, hprojected, objects, hobjects, rfl⟩ := h
  exact ⟨projected, hprojected, rfl, fun _ => mem_projectObjects hobjects⟩

/-- `c'` is sent for `c`: it was shown for the same object, room and epoch, and no refresh is
due. -/
structure Held (p : LODProjector) (context : ProjectionContext) (projected : Snapshot)
    (decision : LODDecision) (object : ObjectState) (c' c : ComponentState) : Prop where
  partial_refresh : context.fullRefresh = false
  waits : ∃ policy, p.registry c.typeID = some policy ∧
    p.refreshDue projected.tick policy decision = false
  shown : ∃ previous, context.previous = some previous ∧ previous.roomID = projected.roomID ∧
    previous.epoch = projected.epoch ∧ previous.schemaVersion = projected.schemaVersion ∧
    ∃ old ∈ previous.objects, old.ref = object.ref ∧ old.archetype = object.archetype ∧
      c' ∈ old.components
  typeID : c'.typeID = c.typeID
  schemaVersion : c'.schemaVersion = c.schemaVersion

theorem mem_of_indexLODObjects {ref : ObjectRef}
    (h : indexLODObjects previous projected ref = some object) :
    ∃ old, previous = some old ∧ old.roomID = projected.roomID ∧ old.epoch = projected.epoch ∧
      old.schemaVersion = projected.schemaVersion ∧ object ∈ old.objects ∧ object.ref = ref := by
  obtain ⟨old, hold, hfind⟩ := Option.bind_eq_some_iff.mp h
  split at hfind
  · cases hfind
  rename_i hsame
  push Not at hsame
  have hmem := mem_of_find?_eq_some hfind
  have href := find?_some hfind
  exact ⟨old, hold, hsame.1, hsame.2.1, hsame.2.2, mem_reverse.mp hmem, of_decide_eq_true href⟩

theorem selected_cases (p : LODProjector) (context : ProjectionContext) (projected : Snapshot)
    (decision : LODDecision) (object : ObjectState) (c : ComponentState) :
    p.selected context projected decision object c = c ∨ Held p context projected decision object
      (p.selected context projected decision object c) c := by
  fun_cases selected p context projected decision object c with
  | case1 policy old hold hpolicy hheld _ hfind hversion =>
    have htype := find?_some hfind
    obtain ⟨previous, hprevious, hroom, hepoch, hschema, hmem, href⟩ := mem_of_indexLODObjects hold
    exact .inr ⟨hheld.1, ⟨policy, hpolicy, hheld.2.2⟩, ⟨previous, hprevious, hroom, hepoch,
      hschema, old, hmem, href, hheld.2.1, mem_of_find?_eq_some hfind⟩,
      of_decide_eq_true htype, hversion⟩
  | _ => exact .inl rfl

/-- A registered component is shown at the levels of its mask from its priority on. -/
def Present (p : LODProjector) (decision : LODDecision) (c : ComponentState) : Prop :=
  ∀ policy ∈ p.registry c.typeID,
    includes (p.policies c.typeID) decision.level = true ∧ decision.minPriority ≤ policy.priority

instance (p : LODProjector) (decision : LODDecision) : DecidablePred (Present p decision) :=
  fun c => inferInstanceAs (Decidable (∀ policy ∈ p.registry c.typeID, _))

theorem omits_eq (p : LODProjector) (decision : LODDecision) (c : ComponentState) :
    (!p.omits decision c) = decide (Present p decision c) := by
  rw [Bool.eq_iff_iff, decide_eq_true_iff]
  unfold omits Present
  cases p.registry c.typeID with
  | none => simp
  | some => by_cases hmin : decision.minPriority = 0 <;> simp [hmin]

theorem refreshDue_of_fresh (h : p.alwaysFreshAtOrAbove ≤ policy.priority)
    (hrate : policy.maxRateHz = 0) : p.refreshDue tick policy decision = true := by
  have hzero : p.rate policy decision = 0 := by
    rw [rate, if_neg fun hlow => UInt8.not_lt.mpr h hlow.1, hrate]
  simp [refreshDue, hzero]

/-- A session is shown what the upstream projector gives for it, or components it was shown
before. -/
theorem projection_sound {snapshot out : Snapshot}
    (h : p.projectWithContext context snapshot = .ok out) :
    ∃ projected, p.upstream.project context snapshot = .ok projected ∧
      out.toSnapshotMeta = projected.toSnapshotMeta ∧
      ∀ o' ∈ out.objects, ∃ object ∈ projected.objects, ∃ decision,
        p.selector context projected object = .ok decision ∧ decision.level ≠ lodCulled ∧
        o'.ref = object.ref ∧ o'.archetype = object.archetype ∧
        List.Forall₂ (fun c' c => (c' = c ∨ Held p context projected decision object c' c) ∧
            (context.fullRefresh = true ∨ (∃ policy, p.registry c.typeID = some policy ∧
              p.alwaysFreshAtOrAbove ≤ policy.priority ∧ policy.maxRateHz = 0) → c' = c))
          o'.components (object.components.filter fun c => Present p decision c) := by
  obtain ⟨projected, hprojected, hmeta, hfrom⟩ := projectWithContext_eq_ok h
  refine ⟨projected, hprojected, hmeta, fun o' ho => ?_⟩
  obtain ⟨object, hobject, decision, hdecision, hlevel, rfl⟩ := hfrom o' ho
  refine ⟨object, hobject, decision, hdecision, hlevel, rfl, rfl, ?_⟩
  simp only [filtered, omits_eq, forall₂_map_left_iff]
  refine forall₂_same.mpr fun c _ => ⟨selected_cases .., fun hfresh => ?_⟩
  refine (selected_cases ..).resolve_right fun hheld => ?_
  rcases hfresh with hfull | ⟨policy, hpolicy, hpriority, hrate⟩
  · exact absurd (hfull.symm.trans hheld.partial_refresh) (by decide)
  · obtain ⟨policy', hpolicy', hwaits⟩ := hheld.waits
    obtain rfl := Option.some.inj (hpolicy.symm.trans hpolicy')
    exact absurd ((refreshDue_of_fresh hpriority hrate).symm.trans hwaits) (by decide)

def thirds : LODProjector where
  registry := fun _ => some ⟨1, 10⟩
  selector := fun _ _ _ => .ok ⟨0, 0, 0⟩
  upstream := .identity
  policies := fun _ => 0
  snapshotRateHz := 30
  alwaysFreshAtOrAbove := 5

def snapshotAt (tick : UInt32) (data : UInt8) : Snapshot :=
  ⟨⟨1, 1, tick, 1⟩, [⟨⟨1, 1⟩, 1, [⟨1, 1, [data]⟩]⟩]⟩

theorem projection_sound_held :
    thirds.projectWithContext ⟨⟨1, 0, 0, 0⟩, 0, some (snapshotAt 3 1), false⟩ (snapshotAt 4 2) =
        .ok (snapshotAt 4 1) ∧
      ∀ o' ∈ (snapshotAt 4 1).objects, ∃ object ∈ (snapshotAt 4 2).objects,
        o'.ref = object.ref ∧ o'.archetype = object.archetype := by
  have h : thirds.projectWithContext ⟨⟨1, 0, 0, 0⟩, 0, some (snapshotAt 3 1), false⟩
      (snapshotAt 4 2) = .ok (snapshotAt 4 1) := rfl
  obtain ⟨projected, hprojected, -, hfrom⟩ := projection_sound h
  obtain rfl := Except.ok.inj hprojected
  refine ⟨h, fun o' ho => ?_⟩
  obtain ⟨object, hobject, _, -, -, href, harchetype, -⟩ := hfrom o' ho
  exact ⟨object, hobject, href, harchetype⟩

/-- What the upstream projector has given for a session, and what the session was shown. -/
structure Projection where
  upstream : Snapshot
  shown : Snapshot

def Projection.tick (x : Projection) : Nat := x.upstream.tick.toNat

inductive Run (p : LODProjector) (session : SessionInfo) : List Projection → Prop
  | nil : Run p session []
  | cons {run : List Projection} {x : Projection} {snapshot : Snapshot} (tier : UInt8)
      (h : Run p session run)
      (hupstream : p.upstream.project ⟨session, tier, run.head?.map (·.shown), false⟩ snapshot =
        .ok x.upstream)
      (hshown : p.projectWithContext ⟨session, tier, run.head?.map (·.shown), false⟩ snapshot =
        .ok x.shown) : Run p session (x :: run)

/-- The ticks grow and do not pass over a multiple of the interval. -/
def InTurn (interval : Nat) (later earlier : Projection) : Prop :=
  earlier.tick < later.tick ∧ ∀ k, earlier.tick < k * interval → later.tick ≤ k * interval

section Refreshes

variable (decisions : ObjectRef → LODDecision) {policy : ReplicationPolicy} {ref : ObjectRef}
  {latest : Projection} {run : List Projection} {session : SessionInfo}
  (h : Run p session run)
  (hconst : ∀ context current object,
    p.selector context current object = .ok (decisions object.ref))
  (hpolicy : p.registry c'.typeID = some policy)
  (hticks : run.IsChain (InTurn (p.interval policy (decisions ref))))
  (hlatest : run.head? = some latest) (ho : o' ∈ latest.shown.objects) (href : o'.ref = ref)
  (hc : c' ∈ o'.components)

include h hconst hpolicy hticks hlatest ho href hc

theorem given_since_refresh :
    ∃ y ∈ run, (∀ k, y.tick < k * p.interval policy (decisions ref) →
        latest.tick < k * p.interval policy (decisions ref)) ∧
      ∃ object ∈ y.upstream.objects, object.ref = ref ∧ c' ∈ object.components := by
  induction h generalizing latest o' with
  | nil => cases hlatest
  | @cons run x snapshot tier hrun hupstream hshown ih =>
    cases hlatest
    obtain ⟨_, hsame, -, hfrom⟩ := projectWithContext_eq_ok hshown
    obtain rfl := Except.ok.inj (hupstream.symm.trans hsame)
    obtain ⟨object, hobject, decision, hdecision, -, rfl⟩ := hfrom o' ho
    obtain rfl := Except.ok.inj ((hconst ..).symm.trans hdecision)
    obtain ⟨c, hmem, rfl⟩ := mem_map.mp hc
    rcases selected_cases p _ x.upstream (decisions object.ref) object c with hfresh | hheld
    · exact ⟨x, mem_cons_self, fun _ => id, object, hobject, href,
        hfresh.symm ▸ mem_of_mem_filter hmem⟩
    obtain ⟨previous, hprevious, -, -, -, old, hold, hsameRef, -, hin⟩ := hheld.shown
    obtain ⟨earlier, hhead, rfl⟩ := Option.map_eq_some_iff.mp hprevious
    obtain ⟨rest, rfl⟩ := head?_eq_some_iff.mp hhead
    obtain ⟨hturn, htail⟩ := isChain_cons_cons.mp hticks
    obtain ⟨y, hy, hnone, hgiven⟩ := ih htail hhead hold (hsameRef.trans href) hin
    refine ⟨y, mem_cons_of_mem _ hy, fun k hk => ?_, hgiven⟩
    obtain ⟨policy', hpolicy', hwaits⟩ := hheld.waits
    rw [← hheld.typeID, hpolicy] at hpolicy'
    obtain rfl := Option.some.inj hpolicy'
    refine lt_of_le_of_ne (hturn.2 k (hnone k hk)) fun htick => ?_
    have hdue : x.upstream.tick.toNat % p.interval policy (decisions object.ref) = 0 := by
      rw [show x.upstream.tick.toNat = _ from htick, ← href]
      exact mul_mod_left ..
    simp [refreshDue, hdue] at hwaits

/-- A component at a lower rate is not older than its interval, if no refresh is passed over. -/
theorem shown_within_interval (hrate : 0 < p.rate policy (decisions ref))
    (hlow : p.rate policy (decisions ref) < p.snapshotRateHz) :
    ∃ y ∈ run, latest.tick - y.tick < p.interval policy (decisions ref) ∧
      ∃ object ∈ y.upstream.objects, object.ref = ref ∧ c' ∈ object.components := by
  obtain ⟨y, hy, hnone, hgiven⟩ :=
    given_since_refresh decisions h hconst hpolicy hticks hlatest ho href hc
  refine ⟨y, hy, ?_, hgiven⟩
  have hpos : 0 < p.interval policy (decisions ref) := by
    have hlow := UInt8.lt_iff_toNat_lt.mp hlow
    exact div_pos (by omega) hrate
  have hlt := hnone (y.tick / p.interval policy (decisions ref) + 1)
    (by rw [mul_comm]; exact lt_mul_div_succ _ hpos)
  have hle := div_mul_le_self y.tick (p.interval policy (decisions ref))
  rw [succ_mul] at hlt
  omega

end Refreshes

theorem shown_within_interval_held :
    ∃ y ∈ [Projection.mk (snapshotAt 4 2) (snapshotAt 4 1), ⟨snapshotAt 3 1, snapshotAt 3 1⟩],
      4 - y.tick < 3 ∧ ∃ object ∈ y.upstream.objects, object.ref = ⟨1, 1⟩ ∧
        ⟨1, 1, [1]⟩ ∈ object.components := by
  have hrun : Run thirds ⟨1, 0, 0, 0⟩
      [⟨snapshotAt 4 2, snapshotAt 4 1⟩, ⟨snapshotAt 3 1, snapshotAt 3 1⟩] :=
    .cons 0 (.cons 0 .nil rfl rfl) rfl rfl
  have hticks : InTurn 3 ⟨snapshotAt 4 2, snapshotAt 4 1⟩ ⟨snapshotAt 3 1, snapshotAt 3 1⟩ :=
    ⟨by decide, fun k (hk : 3 < k * 3) => show 4 ≤ k * 3 by omega⟩
  exact shown_within_interval (fun _ => ⟨0, 0, 0⟩) hrun (fun _ _ _ => rfl) rfl
    (isChain_pair.mpr hticks) rfl mem_cons_self rfl mem_cons_self (by decide)
    (by decide)

/-- The refresh of tick 6 is passed over: at tick 7 the component of tick 3 is sent. -/
theorem stale_after_skipped_refresh :
    ∃ latest run, Run thirds ⟨1, 0, 0, 0⟩ (latest :: run) ∧
      (latest :: run).IsChain (fun later earlier => earlier.tick < later.tick) ∧
      0 < thirds.rate ⟨1, 10⟩ ⟨0, 0, 0⟩ ∧ thirds.rate ⟨1, 10⟩ ⟨0, 0, 0⟩ < thirds.snapshotRateHz ∧
      ∃ o' ∈ latest.shown.objects, ∃ c' ∈ o'.components, ∀ y ∈ latest :: run,
        latest.tick - y.tick < thirds.interval ⟨1, 10⟩ ⟨0, 0, 0⟩ →
        ∀ object ∈ y.upstream.objects, c' ∉ object.components :=
  ⟨⟨snapshotAt 7 3, snapshotAt 7 1⟩,
    [⟨snapshotAt 4 2, snapshotAt 4 1⟩, ⟨snapshotAt 3 1, snapshotAt 3 1⟩],
    .cons 0 (.cons 0 (.cons 0 .nil rfl rfl) rfl rfl) rfl rfl, by simp [Projection.tick, snapshotAt],
    by decide, by decide, _, mem_cons_self, _, mem_cons_self, by decide⟩

end CubeCore.LevelOfDetail
