import CubeCore.RollbackTx

namespace CubeCore.TransactionCalls

open RollbackTx List
open Relation (ReflTransGen)

variable {V : Type}

section Calls

inductive Called (tx : Tx V) : Tx V → Prop where
  | nothing : Called tx tx
  | afterCommit (hook : Nat) : Called tx { tx with
      commits := tx.commits ++ [.user hook]
      calls := tx.calls ++ [.afterCommit hook] }
  | emit (effect : Effect) : Called tx { tx with
      durability := if tx.durability = .memory then .strict else tx.durability
      effects := tx.effects ++ [effect]
      calls := tx.calls ++ [.emit effect] }
  | addMutation (m : EntityMutation) : Called tx { tx with
      mutations := tx.mutations ++ [m]
      calls := tx.calls ++ [.addMutation m] }
  | registered (participant : Nat) : Called tx { tx with
      participants := tx.participants ++ [participant]
      calls := tx.calls ++ [.registerCommitParticipant participant] }

abbrev Calls : Tx V → Tx V → Prop := ReflTransGen Called

variable (env : Env V) (tx : Tx V)

theorem called_emit (effect : Effect) : Called tx (tx.emit effect).1 := by
  fun_cases Tx.emit tx effect with
  | case4 _ _ effect' => exact .emit effect'
  | _ => exact .nothing

theorem called_addMutation (m : EntityMutation) : Called tx (tx.addMutation m).1 := by
  fun_cases Tx.addMutation tx m with
  | case4 => exact .addMutation m
  | _ => exact .nothing

theorem called_registerCommitParticipant (comparable : Nat → Bool) (p : Nat) :
    Called tx (tx.registerCommitParticipant comparable p).1 := by
  fun_cases Tx.registerCommitParticipant comparable tx p with
  | case4 => exact .registered p
  | _ => exact .nothing

theorem called_call (c : TxCall) : Called tx (tx.call env c).1 := by
  cases c with
  | afterCommit hook =>
    simp only [Tx.call, Tx.afterCommit]
    split
    · exact .afterCommit hook
    · exact .nothing
  | emit effect => exact called_emit tx effect
  | addMutation m => exact called_addMutation tx m
  | registerCommitParticipant p => exact called_registerCommitParticipant tx env.comparable p

theorem calls_runPrepare (store : Store V) (program : Program TxCall (Store V) (Option Error)) :
    Calls tx (runPrepare env store program tx).1 := by
  induction program generalizing tx with
  | done => exact .refl
  | call c next ih => exact .head (called_call env tx c) (ih _ _ _)

theorem calls_prepareParticipants (store : Store V) (ps : List Nat) :
    Calls tx (prepareParticipants env store ps tx).1 := by
  induction ps generalizing tx with
  | nil => exact .refl
  | cons p ps ih =>
    have hp := calls_runPrepare env tx store (env.prepare p)
    simp only [prepareParticipants]
    split
    all_goals
      rename_i heq
      rw [heq] at hp
    · exact hp
    · exact hp.trans (ih _)

theorem calls_addRemoteMutations (commits : List RemoteCommit) :
    Calls tx (addRemoteMutations commits tx).1 := by
  induction commits generalizing tx with
  | nil => exact .refl
  | cons c commits ih =>
    have hc := called_addMutation tx (remoteMutation c)
    simp only [addRemoteMutations]
    split
    all_goals
      rename_i heq
      rw [heq] at hc
    · exact .single hc
    · exact .head hc (ih _)

theorem calls_finalizeRemoteWriteBatch (remote : Option RemoteBatch) :
    Calls tx (finalizeRemoteWriteBatch remote tx).1 := by
  unfold finalizeRemoteWriteBatch
  split
  · exact .refl
  · split
    · exact .refl
    · exact calls_addRemoteMutations tx _

end Calls

section Log

def hookCall : TxCall → Option Hook
  | .afterCommit hook => some (.user hook)
  | _ => none

/-- What the calls of an open transaction have left in it. -/
structure Logged (tx : Tx V) : Prop where
  isOpen : tx.state = .open
  effects : ∀ e, .emit e ∈ tx.calls → e ∈ tx.effects
  mutations : ∀ m, .addMutation m ∈ tx.calls → m ∈ tx.mutations
  hooks : tx.commits = tx.calls.filterMap hookCall
  durable : tx.effects ≠ [] → tx.durability ≠ .memory

theorem logged_new (id : Nat) (m : HandlerMeta) (name : String) :
    Logged (Tx.new id m name : Tx V) :=
  ⟨rfl, by simp [Tx.new], by simp [Tx.new], rfl, by simp [Tx.new]⟩

variable {tx tx' : Tx V}

theorem logged_called (h : Logged tx) (hc : Called tx tx') : Logged tx' := by
  cases hc with
  | nothing => exact h
  | afterCommit | registered =>
    refine ⟨h.isOpen, ?_, ?_, ?_, h.durable⟩
    · intro e he
      exact h.effects e (by simpa using he)
    · intro m hm
      exact h.mutations m (by simpa using hm)
    · simp [h.hooks, hookCall]
  | emit =>
    refine ⟨h.isOpen, ?_, ?_, ?_, ?_⟩
    · intro e he
      simp only [mem_append, mem_singleton, TxCall.emit.injEq] at he ⊢
      exact he.imp (h.effects e) id
    · intro m hm
      exact h.mutations m (by simpa using hm)
    · simp [h.hooks, hookCall]
    · intro _
      split
      · simp
      · assumption
  | addMutation =>
    refine ⟨h.isOpen, ?_, ?_, ?_, h.durable⟩
    · intro e he
      exact h.effects e (by simpa using he)
    · intro m' hm
      simp only [mem_append, mem_singleton, TxCall.addMutation.injEq] at hm ⊢
      exact hm.imp (h.mutations m') id
    · simp [h.hooks, hookCall]

theorem logged_calls (h : Logged tx) (hc : Calls tx tx') : Logged tx' := by
  induction hc with
  | refl => exact h
  | tail _ hstep ih => exact logged_called ih hstep

/-- Calls of the transaction leave what a rollback needs alone. -/
structure SameRollbacks (tx tx' : Tx V) : Prop where
  rollbacks : tx'.rollbacks = tx.rollbacks
  undoKeys : tx'.undoKeys = tx.undoKeys
  policy : tx'.policy = tx.policy

theorem sameRollbacks_called (hc : Called tx tx') : SameRollbacks tx tx' := by
  cases hc <;> exact ⟨rfl, rfl, rfl⟩

theorem sameRollbacks_calls (hc : Calls tx tx') : SameRollbacks tx tx' := by
  induction hc with
  | refl => exact ⟨rfl, rfl, rfl⟩
  | tail _ hstep ih =>
    have h := sameRollbacks_called hstep
    exact ⟨h.rollbacks.trans ih.rollbacks, h.undoKeys.trans ih.undoKeys, h.policy.trans ih.policy⟩

end Log

end CubeCore.TransactionCalls
