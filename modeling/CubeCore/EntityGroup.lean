import Mathlib.Data.List.Dedup
import Mathlib.Data.List.Sort

namespace CubeCore.EntityGroup

inductive EntityGroupTransitionState where
  | none
  | join
  | leave
  | move
deriving DecidableEq

/-- The group fields of an `EntityBase`; each of them is an atomic of its own. -/
structure GroupBase where
  groupLockID : Int
  groupEpoch : UInt64
  groupState : EntityGroupTransitionState
  groupTargetID : Int
deriving DecidableEq

def GroupBase.zero : GroupBase := ⟨0, 0, .none, 0⟩

def GroupBase.groupTransitionPending (b : GroupBase) : Bool := b.groupState ≠ .none

def GroupBase.setGroupLockID (b : GroupBase) (groupID : Int) : GroupBase :=
  if b.groupLockID = groupID then b
  else { b with
    groupLockID := groupID
    groupEpoch := b.groupEpoch + 1 }

structure GroupTransitionRequest where
  entityID : Int
  targetGroupID : Int
  state : EntityGroupTransitionState
deriving DecidableEq

/-- The requests that `RequestJoinEntityLockGroup`, `RequestLeaveEntityLockGroup`
and `RequestMoveEntityLockGroup` pass on. -/
def GroupTransitionRequest.valid (req : GroupTransitionRequest) : Bool :=
  match req.state with
  | .none => false
  | .join => req.targetGroupID ≠ 0
  | .leave => req.targetGroupID = 0
  | .move => req.targetGroupID ≠ 0

theorem GroupTransitionRequest.state_of_valid {req : GroupTransitionRequest}
    (h : req.valid = true) : req.state ≠ .none := by
  intro hstate
  simp [valid, hstate] at h

/-- The group that a transition leads to. -/
def GroupTransitionRequest.newGroupID (req : GroupTransitionRequest) : Int :=
  match req.state with
  | .leave => 0
  | _ => req.targetGroupID

def transitionLockGroupIDs (currentGroupID targetGroupID : Int) :
    EntityGroupTransitionState → List Int
  | .none => []
  | .join => [targetGroupID].filter (· ≠ 0)
  | .leave => [currentGroupID].filter (· ≠ 0)
  | .move => (([currentGroupID, targetGroupID].filter (· ≠ 0)).dedup).insertionSort (· ≤ ·)

theorem nodup_transitionLockGroupIDs (current target : Int) (state : EntityGroupTransitionState) :
    (transitionLockGroupIDs current target state).Nodup := by
  cases state with
  | none => exact List.nodup_nil
  | join => exact List.Nodup.filter _ (List.nodup_singleton target)
  | leave => exact List.Nodup.filter _ (List.nodup_singleton current)
  | move =>
    apply (List.perm_insertionSort _ _).nodup_iff.mpr
    exact List.nodup_dedup _

end CubeCore.EntityGroup
