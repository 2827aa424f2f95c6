import CubeCore.CommitPanics
import Mathlib.Data.List.ReduceOption

namespace CubeCore.CastRollback

open RollbackTx TransactionCalls RollbackCapture TransactionOutcome
open CommitPanics hiding invokeWithTransaction

variable {V : Type} {env : Env V} {m : HandlerMeta} {es : List (Option Int)}
  {committer : Option Committer} {remote : Option RemoteBatch} {id : Nat} {name : String}
  {handler : Handler V} {store : Store V} {guard : List Int}

/-- No declared entity has the DAO. -/
def Undeclared (env : Env V) (es : List (Option Int)) (dao : Nat) : Prop :=
  ∀ entity, some entity ∈ es → dao ∉ (env.entity entity).daos

@[simp] theorem undeclared_quietEnv {prepare : Nat → Program TxCall (Store V) Reply} {dao : Nat} :
    Undeclared (quietEnv env prepare) es dao ↔ Undeclared env es dao :=
  .rfl

variable {result : HandlerResult} {s : Run V} {tx : Tx V}

def errLockTimeout : Sentinel := .text "nest: lock timeout"
def errEntityLockGroupChanged : Sentinel := .text "nest: entity lock group changed"
def errEntityGroupTransitionPending : Sentinel := .text "nest: entity group transition pending"
def entityGroupDispatchRequeueMax : Nat := 400

def transient : List Sentinel :=
  [errEntityGroupTransitionPending, errLockTimeout, errEntityLockGroupChanged]

/-- What the commit phase of a handler that returned a value comes to. -/
def commitPhase (env : Env V) (committer : Option Committer) (remote : Option RemoteBatch)
    (s : Run V) : Option (Admission V) :=
  match finalizeRemoteWriteBatch remote s.tx with
  | (tx, none) => some (durableCommit env s.store committer tx)
  | (_, some _) => none

end CubeCore.CastRollback
