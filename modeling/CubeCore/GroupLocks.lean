import CubeCore.DispatchLocks
import CubeCore.EntityGroup
import CubeCore.GroupLockTable

namespace CubeCore.GroupLocks

open DispatchLocks EntityGroup GroupLockTable TransitionSystem

structure DispatchGroupSnapshot where
  ent : Int
  groupID : Int
  epoch : UInt64
  state : EntityGroupTransitionState
  targetID : Int

/-- The loop of `resolveDispatchGroupIDFromSnapshots`; `none` is
`ErrEntityLockGroupMix`. -/
def resolveFrom (groupID : Int) : List DispatchGroupSnapshot → Option Int
  | [] => some groupID
  | snap :: snaps =>
    if snap.groupID = 0 then resolveFrom groupID snaps
    else if groupID = 0 then resolveFrom snap.groupID snaps
    else if groupID ≠ snap.groupID then none
    else resolveFrom groupID snaps

def resolveDispatchGroupIDFromSnapshots (snaps : List DispatchGroupSnapshot) : Option Int :=
  resolveFrom 0 snaps

/-- One load of `validateDispatchGroupSnapshots` with what it is compared to. -/
inductive Check where
  | pending (id : Int)
  | groupID (id : Int) (groupID : Int)
  | epoch (id : Int) (epoch : UInt64)
  | state (id : Int) (state : EntityGroupTransitionState)
  | targetID (id : Int) (targetID : Int)

def DispatchGroupSnapshot.checks (snap : DispatchGroupSnapshot) : List Check :=
  [.pending snap.ent, .groupID snap.ent snap.groupID, .epoch snap.ent snap.epoch,
    .state snap.ent snap.state, .targetID snap.ent snap.targetID]

def Check.run (base : Int → GroupBase) : Check → Snapshots
  | .pending id => if (base id).groupTransitionPending then .pending else .same
  | .groupID id seen => if (base id).groupLockID ≠ seen then .changed else .same
  | .epoch id seen => if (base id).groupEpoch ≠ seen then .changed else .same
  | .state id seen => if (base id).groupState ≠ seen then .changed else .same
  | .targetID id seen => if (base id).groupTargetID ≠ seen then .changed else .same

/-- How far the capture of one entity has come. -/
inductive Loading where
  | groupID
  | epoch (groupID : Int)
  | state (groupID : Int) (epoch : UInt64)
  | targetID (groupID : Int) (epoch : UInt64) (state : EntityGroupTransitionState)

inductive Purpose where
  | dispatch (snaps : List DispatchGroupSnapshot)
  | transition (req : GroupTransitionRequest) (todo : List Int)

/-- What follows when all group locks are given back. -/
inductive Then where
  | done
  | refuse
  | retry (req : GroupTransitionRequest)

/-- The steps of a transition on its locked entity, and of an abort. -/
inductive Stage where
  | compareState
  | compareTarget
  | store
  | swap
  | epoch
  | clearTarget
  | clearState
  | done

/-- `held` are the group locks of the goroutine, in the order it took them. -/
inductive Phase where
  | out
  | rejecting (todo : List Int)
  | capturing (snaps : List DispatchGroupSnapshot) (loading : Loading) (todo : List Int)
  | trying (h : Handle) (held : List Handle) (purpose : Purpose)
  | refused
  | dispatching (held : List Handle) (snaps : List DispatchGroupSnapshot)
  | validating (held : List Handle) (snaps : List DispatchGroupSnapshot) (checks : List Check)
  | invalid (held : List Handle) (reason : Snapshots)
  | unlocking (handles : List Handle) (next : Then)
  | dropping (h : Handle) (handles : List Handle) (next : Then)
  | joining (req : GroupTransitionRequest) (todo : List Int) (held : List Handle)
  | locking (req : GroupTransitionRequest) (held : List Handle)
  | updating (req : GroupTransitionRequest) (held : List Handle) (stage : Stage)
  | retrying (req : GroupTransitionRequest) (held : List Handle)
  | aborting (req : GroupTransitionRequest) (held : List Handle) (stage : Stage)

/-- `requests` are the transition messages on their way. -/
structure Shared where
  base : Int → GroupBase
  groupLocks : Table
  requests : List GroupTransitionRequest

def Shared.modify (sh : Shared) (id : Int) (f : GroupBase → GroupBase) : Shared :=
  { sh with base := Function.update sh.base id (f (sh.base id)) }

/-- What follows the last attempt on a group lock. -/
def Purpose.locked (held : List Handle) : Purpose → Phase
  | .dispatch snaps => .dispatching held snaps
  | .transition req todo => .joining req todo held

def Purpose.failed : Purpose → Then
  | .dispatch _ => .refuse
  | .transition req _ => .retry req

def released (pc : PC) : Then → Phase
  | .done =>
    match pc with
    | .resolving lockEs _ => .capturing [] .groupID lockEs
    | _ => .out
  | .refuse => .refused
  | .retry req => .retrying req []

/-- The end of a capture: the common group, and the first half of `acquire`. -/
def resolve (g : Nat) (sh : Shared) (snaps : List DispatchGroupSnapshot) : Phase × Shared :=
  match resolveDispatchGroupIDFromSnapshots snaps with
  | none => (.refused, sh)
  | some groupID =>
    if groupID = 0 then (.dispatching [] snaps, sh)
    else
      let r := sh.groupLocks.reference groupID g
      (.trying r.2 [] (.dispatch snaps), { sh with groupLocks := r.1 })

/-- One step on the locked entity. `managed`: the getter is a group store and manages it. -/
def update (req : GroupTransitionRequest) (managed : Bool) (sh : Shared) :
    Stage → Option (Stage × Shared)
  | .compareState =>
    some (if (sh.base req.entityID).groupState = req.state then .compareTarget else .done, sh)
  | .compareTarget =>
    some (if (sh.base req.entityID).groupTargetID = req.targetGroupID then .store else .done, sh)
  | .store => some (if managed then .swap else .clearTarget, sh)
  | .swap =>
    if (sh.base req.entityID).groupLockID = req.newGroupID then some (.clearTarget, sh)
    else some (.epoch, sh.modify req.entityID fun b => { b with groupLockID := req.newGroupID })
  | .epoch =>
    some (.clearTarget,
      sh.modify req.entityID fun b => { b with groupEpoch := b.groupEpoch + 1 })
  | .clearTarget =>
    some (.clearState, sh.modify req.entityID fun b => { b with groupTargetID := 0 })
  | .clearState => some (.done, sh.modify req.entityID fun b => { b with groupState := .none })
  | .done => none

/-- One step of `abortGroupTransition`; `found` says that the getter finds the entity. -/
def abort (req : GroupTransitionRequest) (found : Bool) (sh : Shared) :
    Stage → Option (Stage × Shared)
  | .compareState =>
    some (if found && (sh.base req.entityID).groupState = req.state then .compareTarget
      else .done, sh)
  | .compareTarget =>
    some (if (sh.base req.entityID).groupTargetID = req.targetGroupID then .clearTarget
      else .done, sh)
  | .clearTarget =>
    some (.clearState, sh.modify req.entityID fun b => { b with groupTargetID := 0 })
  | .clearState => some (.done, sh.modify req.entityID fun b => { b with groupState := .none })
  | _ => none

/-- One step of goroutine `g` on the groups. `ok` is what comes from outside. -/
def groupStep (g : Nat) (pc : PC) (sh : Shared) : Phase → Bool → Option (Phase × Shared)
  | .rejecting (id :: todo), _ =>
    some (if (sh.base id).groupTransitionPending then .refused else .rejecting todo, sh)
  | .rejecting [], _ => some (released pc .done, sh)
  | .capturing snaps .groupID (id :: todo), _ =>
    some (.capturing snaps (.epoch (sh.base id).groupLockID) (id :: todo), sh)
  | .capturing snaps (.epoch groupID) (id :: todo), _ =>
    some (.capturing snaps (.state groupID (sh.base id).groupEpoch) (id :: todo), sh)
  | .capturing snaps (.state groupID epoch) (id :: todo), _ =>
    some (.capturing snaps (.targetID groupID epoch (sh.base id).groupState) (id :: todo), sh)
  | .capturing snaps (.targetID groupID epoch state) (id :: todo), _ =>
    some (.capturing (snaps ++ [⟨id, groupID, epoch, state, (sh.base id).groupTargetID⟩])
      .groupID todo, sh)
  | .capturing snaps _ [], _ => some (resolve g sh snaps)
  | .trying h held purpose, _ =>
    match sh.groupLocks.tryLock h g with
    | some t => some (purpose.locked (held ++ [h]), { sh with groupLocks := t })
    | none => some (.dropping h held.reverse purpose.failed, sh)
  | .dropping h handles next, _ =>
    some (.unlocking handles next, { sh with groupLocks := sh.groupLocks.releaseRef h g })
  | .unlocking (h :: handles) next, _ =>
    some (.dropping h handles next, { sh with groupLocks := sh.groupLocks.unlock h })
  | .unlocking [] next, _ => some (released pc next, sh)
  | .validating held snaps (check :: checks), _ =>
    match check.run sh.base with
    | .same => some (.validating held snaps checks, sh)
    | reason => some (.invalid held reason, sh)
  | .joining req (groupID :: todo) held, _ =>
    let r := sh.groupLocks.reference groupID g
    some (.trying r.2 held (.transition req todo), { sh with groupLocks := r.1 })
  | .updating req held stage, managed =>
    (update req managed sh stage).map fun r => (.updating req held r.1, r.2)
  | .retrying req held, true =>
    some (.unlocking held.reverse .done, { sh with requests := sh.requests ++ [req] })
  | .retrying req held, false => some (.aborting req held .compareState, sh)
  | .aborting req held stage, found =>
    match abort req found sh stage with
    | some r => some (.aborting req held r.1, r.2)
    | none => some (.unlocking held.reverse .done, sh)
  | _, _ => none

/-- Where a goroutine stands after a step to `pc`; `none` when the groups decide otherwise. -/
def follow (base : Int → GroupBase) (pc : PC) : Act → Phase → Option Phase
  | .start (.groupTransition (some e)), .joining req [] held =>
    if e = req.entityID then some (.locking req held) else none
  | .start (.groupTransition (some _)), _ => none
  | .start _, .out =>
    match pc with
    | .resolving lockEs _ => some (.rejecting lockEs)
    | _ => some .out
  | .resolve .none, .dispatching [] snaps => some (.dispatching [] snaps)
  | .resolve .held, .dispatching (h :: held) snaps => some (.dispatching (h :: held) snaps)
  | .resolve .refused, .refused => some .out
  | .lock _, .dispatching held snaps | .busy, .dispatching held snaps =>
    match pc with
    | .ending => some (.unlocking held.reverse .done)
    | _ => some (.dispatching held snaps)
  | .lock _, .locking req held | .busy, .locking req held =>
    match pc with
    | .ending => some (.retrying req held)
    | _ => some (.locking req held)
  | .lock _, .out => some .out
  | .loopDone, .dispatching held snaps =>
    match pc with
    | .validating _ _ _ =>
      some (.validating held snaps (snaps.flatMap DispatchGroupSnapshot.checks))
    | _ => some (.dispatching held snaps)
  | .loopDone, .locking req held => some (.updating req held .compareState)
  | .loopDone, .out => some .out
  | .validate .same, .validating held snaps [] => some (.dispatching held snaps)
  | .validate .changed, .invalid held .changed => some (.unlocking held.reverse .done)
  | .validate .pending, .invalid held .pending => some (.unlocking held.reverse .done)
  | .returns, .dispatching held _ => some (.unlocking held.reverse .done)
  | .returns, .updating _ held .done => some (.unlocking held.reverse .done)
  | .returns, .out => some .out
  | .createInScope id, phase => if base id = .zero then some phase else none
  | .skip, phase | .untouched, phase | .castMulti _ _, phase | .releaseCast _, phase
  | .next _, phase => some phase
  | .release, .out => some .out
  | _, _ => none

/-- `begin` is the CAS of `BeginGroupTransition`, `storeTarget` the store after it. -/
inductive Label where
  | entity (a : Act)
  | group (ok : Bool)
  | transition (req : GroupTransitionRequest)
  | begin (req : GroupTransitionRequest)
  | storeTarget (req : GroupTransitionRequest)

structure Groups where
  locks : Locks
  shared : Shared
  storing : List GroupTransitionRequest
  phase : Nat → Phase

def Groups.settle (s : Groups) (g : Nat) (phase : Phase) (sh : Shared) : Groups :=
  { s with
    phase := Function.update s.phase g phase
    shared := sh }

variable (groupOf : Int → Int) (s : Groups)

def entityStep (g : Nat) (a : Act) : Option Groups :=
  (localStep groupOf (fun id => (s.locks.owner id).isNone) (s.locks.guard g) (s.locks.pc g) a).bind
    fun r => (follow s.shared.base r.2 a (s.phase g)).map fun phase =>
      { s with
        locks := s.locks.settle g r.1 r.2
        phase := Function.update s.phase g phase }

/-- A worker takes a transition message and knows which group locks it needs. -/
def takeTransition (g : Nat) (req : GroupTransitionRequest) : Option Groups :=
  match s.locks.pc g, s.phase g with
  | .idle, .out =>
    if req ∈ s.shared.requests then
      some (s.settle g
        (.joining req (transitionLockGroupIDs (s.shared.base req.entityID).groupLockID
          req.targetGroupID req.state) [])
        { s.shared with requests := s.shared.requests.erase req })
    else none
  | _, _ => none

def beginGroupTransition (req : GroupTransitionRequest) : Option Groups :=
  if req.valid ∧ (s.shared.base req.entityID).groupState = .none then
    some { s with
      shared := s.shared.modify req.entityID fun b => { b with groupState := req.state }
      storing := s.storing ++ [req] }
  else none

def storeTarget (req : GroupTransitionRequest) : Option Groups :=
  if req ∈ s.storing then
    some { s with
      shared :=
        { s.shared.modify req.entityID fun b => { b with groupTargetID := req.targetGroupID } with
          requests := s.shared.requests ++ [req] }
      storing := s.storing.erase req }
  else none

def next (l : Nat × Label) : Option Groups :=
  match l.2 with
  | .entity a => entityStep groupOf s l.1 a
  | .group ok =>
    (groupStep l.1 (s.locks.pc l.1) s.shared (s.phase l.1) ok).map fun r =>
      s.settle l.1 r.1 r.2
  | .transition req => takeTransition s l.1 req
  | .begin req => beginGroupTransition s req
  | .storeTarget req => storeTarget s req

def initial (base : Int → GroupBase) : Groups :=
  ⟨DispatchLocks.initial, ⟨base, .empty, []⟩, [], fun _ => .out⟩

end CubeCore.GroupLocks
