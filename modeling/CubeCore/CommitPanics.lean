import CubeCore.TransactionOutcome

namespace CubeCore.CommitPanics

open RollbackTx TransactionCalls TransactionOutcome

variable {V : Type}

/-- What a call answers, or that it panics (`none`). -/
abbrev Reply := Option (Option Error)

structure PanickyCommitter where
  commit : CommitRecord → Reply
  notifier : Bool

/-- The same committer if it does not panic. -/
def PanickyCommitter.quiet (c : PanickyCommitter) : Committer :=
  ⟨fun r => (c.commit r).getD none, c.notifier⟩

def quietProgram : Program TxCall (Store V) Reply → Program TxCall (Store V) (Option Error)
  | .done reply => .done (reply.getD none)
  | .call c next => .call c fun e store => quietProgram (next e store)

def quietEnv (env : Env V) (prepare : Nat → Program TxCall (Store V) Reply) : Env V :=
  { env with prepare := fun p => quietProgram (prepare p) }

section Phase

variable (env : Env V) (prepare : Nat → Program TxCall (Store V) Reply)
  (committer : Option PanickyCommitter)

def runReply (store : Store V) : Program TxCall (Store V) Reply → Tx V → Tx V × Reply
  | .done reply, tx => (tx, reply)
  | .call c next, tx =>
    let reply := tx.call env c
    runReply store (next reply.2 store) reply.1

/-- The loop over the participants up to a panic, with the transaction then. -/
def preparePanics (store : Store V) : List Nat → Tx V → Option (Tx V)
  | [], _ => none
  | p :: rest, tx =>
    match runReply env store (prepare p) tx with
    | (tx, none) => some tx
    | (_, some (some _)) => none
    | (tx, some none) => preparePanics store rest tx

/-- `durableCommit` up to a panic, with the transaction then. -/
def commitPanics (store : Store V) (tx : Tx V) : Option (Tx V) :=
  if tx.durability = .memory ∧ tx.effects = [] ∨ tx.state ≠ .open then none
  else match preparePanics env prepare store tx.participants tx with
    | some tx => some tx
    | none =>
      match prepareCommitRecord (quietEnv env prepare) store tx with
      | (_, .error _) => none
      | (tx, .ok record) =>
        if !record.empty && committer.any fun c => c.commit record = none then some tx else none

/-- The commit phase of a handler that returned a value, up to a panic. -/
def phasePanics (remote : Option RemoteBatch) (s : Run V) : Option (Tx V) :=
  match finalizeRemoteWriteBatch remote s.tx with
  | (tx, none) => commitPanics env prepare committer s.store tx
  | (_, some _) => none

/-- The commit phase comes after the `recover` of the deferred function. -/
def invokeWithTransaction (m : HandlerMeta) (es : List (Option Int)) (remote : Option RemoteBatch)
    (id : Nat) (name : String) (handler : Handler V) (store : Store V) (guard : List Int) :
    Outcome V :=
  let panicked : Option (Run V × Tx V) :=
    match handlerEnd (quietEnv env prepare) m es remote id name handler store guard with
    | .ok (.value _, s) => (phasePanics env prepare committer remote s).map (s, ·)
    | _ => none
  match panicked with
  | some (s, tx) => ⟨.panic, s.store, tx, tx, [], [], s.locked⟩
  | none =>
    RollbackTx.invokeWithTransaction (quietEnv env prepare) m es (committer.map (·.quiet)) remote id
      name handler store guard

end Phase

section Calls

variable {env : Env V} {prepare : Nat → Program TxCall (Store V) Reply}
  {committer : Option PanickyCommitter} {store : Store V} {tx tx' : Tx V}

theorem calls_runReply (program : Program TxCall (Store V) Reply) (tx : Tx V) :
    Calls tx (runReply env store program tx).1 := by
  induction program generalizing tx with
  | done => exact .refl
  | call c next ih => exact .head (called_call env tx c) (ih _ _ _)

theorem calls_preparePanics {ps : List Nat}
    (h : preparePanics env prepare store ps tx = some tx') : Calls tx tx' := by
  induction ps generalizing tx with
  | nil => cases h
  | cons p ps ih =>
    have hp : Calls tx (runReply env store (prepare p) tx).1 := calls_runReply (prepare p) tx
    simp only [preparePanics] at h
    split at h
    all_goals
      rename_i heq
      rw [heq] at hp
    · cases h
      exact hp
    · cases h
    · exact hp.trans (ih h)

theorem calls_commitPanics (h : commitPanics env prepare committer store tx = some tx') :
    Calls tx tx' := by
  unfold commitPanics at h
  split at h
  · cases h
  split at h
  · rename_i hprepare
    cases h
    exact calls_preparePanics hprepare
  split at h
  · cases h
  rename_i heq
  split at h
  · cases h
    exact (calls_prepareCommitRecord heq).1
  · cases h

theorem calls_phasePanics {remote : Option RemoteBatch} {s : Run V}
    (h : phasePanics env prepare committer remote s = some tx) : Calls s.tx tx := by
  have hfinalize := calls_finalizeRemoteWriteBatch s.tx remote
  unfold phasePanics at h
  split at h
  · rename_i heq
    rw [heq] at hfinalize
    exact hfinalize.trans (calls_commitPanics h)
  · cases h

end Calls

section Outcome

variable {env : Env V} {prepare : Nat → Program TxCall (Store V) Reply}
  {committer : Option PanickyCommitter} {m : HandlerMeta} {es : List (Option Int)}
  {remote : Option RemoteBatch} {id : Nat} {name : String} {handler : Handler V} {store : Store V}
  {guard : List Int} {ret : Nat} {s : Run V} {tx : Tx V}

theorem invoke_of_panic
    (hstart : handlerEnd (quietEnv env prepare) m es remote id name handler store guard =
      .ok (.value ret, s)) (h : phasePanics env prepare committer remote s = some tx) :
    invokeWithTransaction env prepare committer m es remote id name handler store guard =
      ⟨.panic, s.store, tx, tx, [], [], s.locked⟩ := by
  simp [invokeWithTransaction, hstart, h]

theorem invoke_of_no_panic
    (h : ∀ ret s, handlerEnd (quietEnv env prepare) m es remote id name handler store guard =
      .ok (.value ret, s) → phasePanics env prepare committer remote s = none) :
    invokeWithTransaction env prepare committer m es remote id name handler store guard =
      RollbackTx.invokeWithTransaction (quietEnv env prepare) m es (committer.map (·.quiet)) remote
        id name handler store guard := by
  unfold invokeWithTransaction
  cases hstart : handlerEnd (quietEnv env prepare) m es remote id name handler store guard with
  | error => rfl
  | ok run =>
    obtain ⟨result, s⟩ := run
    cases result with
    | value ret => simp [h ret s hstart]
    | error | panic => rfl

def RolledBack (env : Env V) (es : List (Option Int)) (store : Store V) (o : Outcome V) : Prop :=
  (∀ entity, some entity ∈ es → ∀ dao ∈ (env.entity entity).daos, o.store dao = store dao) ∧
    o.closed.state = .rolledBack ∧ o.hooks = []

theorem rolledBack_of_error (hm : m.rollback ≠ .none) {committer : Option Committer} {e : Error}
    (hstart : handlerEnd env m es remote id name handler store guard = .ok (.value ret, s))
    (hresult : (RollbackTx.invokeWithTransaction env m es committer remote id name handler store
      guard).result = .error e) (hdeterminate : .commitIndeterminate ∉ e) :
    RolledBack env es store
      (RollbackTx.invokeWithTransaction env m es committer remote id name handler store guard) := by
  have hended : Ended env store (.ok (.value ret, s)) guard (RollbackTx.invokeWithTransaction env m
      es committer remote id name handler store guard) := hstart ▸ ended_invokeWithTransaction hm
  cases hended with
  | notStarted e hnone => cases hnone
  | failed _ _ hstart' noValue =>
    cases hstart'
    exact absurd rfl (noValue ret)
  | returned ret s hstart' finished =>
    cases hstart'
    cases finished.ending with
    | rolledBack _ _ same closed hooks =>
      refine ⟨fun entity hentity dao hdao => ?_, ?_, hooks⟩
      · rw [same]
        exact rollback_restores hm hstart finished.calls (.inl ⟨entity, hentity, hdao⟩)
      · obtain ⟨_, htracked, _⟩ := tracked_handlerEnd hm hstart
        have hopen := (logged_calls htracked.logged finished.calls).isOpen
        rw [closed, Tx.rollback, if_pos hopen]
    | abandoned _ result indeterminate =>
      rw [result, HandlerResult.error.injEq] at hresult
      exact absurd (hresult ▸ indeterminate) hdeterminate
    | committed result =>
      rw [result] at hresult
      cases hresult

/-- A panic of the commit phase never closes the transaction, though its rollback would put
everything back. An error is rolled back. -/
theorem commit_panic_left_open (hm : m.rollback ≠ .none)
    (hstart : handlerEnd (quietEnv env prepare) m es remote id name handler store guard =
      .ok (.value ret, s)) :
    let o := invokeWithTransaction env prepare committer m es remote id name handler store guard
    (phasePanics env prepare committer remote s ≠ none →
      o.result = .panic ∧ o.closed.state = .open ∧ o.hooks = [] ∧ o.store = s.store ∧
        ∀ entity, some entity ∈ es → ∀ dao ∈ (env.entity entity).daos,
          (o.closed.rollback o.store).2 dao = store dao) ∧
    ∀ e, o.result = .error e → .commitIndeterminate ∉ e → RolledBack env es store o := by
  intro o
  cases hphase : phasePanics env prepare committer remote s with
  | some tx =>
    have ho : o = ⟨.panic, s.store, tx, tx, [], [], s.locked⟩ := invoke_of_panic hstart hphase
    have hcalls := calls_phasePanics hphase
    obtain ⟨_, htracked, _⟩ := tracked_handlerEnd hm hstart
    rw [ho]
    refine ⟨fun _ => ⟨rfl, (logged_calls htracked.logged hcalls).isOpen, rfl, rfl, ?_⟩,
      fun _ he => by cases he⟩
    intro entity hentity dao hdao
    exact rollback_restores hm hstart hcalls (.inl ⟨entity, hentity, hdao⟩)
  | none =>
    refine ⟨fun h => absurd rfl h, fun e he hdeterminate => ?_⟩
    have ho : o = _ := invoke_of_no_panic fun ret' s' hstart' => by
      rw [hstart] at hstart'
      cases hstart'
      exact hphase
    rw [ho] at he ⊢
    exact rolledBack_of_error hm hstart he hdeterminate

end Outcome

def levelUpTogether : Handler Nat :=
  .call (.tx (.registerCommitParticipant 1)) fun _ _ => levelUp

theorem commit_panic_left_open_committer :
    let o := invokeWithTransaction heroEnv (fun _ => .done (some none))
      (some ⟨fun _ => none, false⟩) ⟨.undo, .memory⟩ [some 1] none 1 "level" levelUpTogether
      heroStore [1]
    let o' := invokeWithTransaction heroEnv (fun _ => .done (some none))
      (some ⟨fun _ => some (some [.text "full"]), false⟩) ⟨.undo, .memory⟩ [some 1] none 1 "level"
      levelUpTogether heroStore [1]
    (o.result = .panic ∧ o.closed.state = .open ∧ (o.store 1).fields 0 7 = 5 ∧
      (o.closed.rollback o.store).2 1 = heroStore 1) ∧
    o'.result = .error [.commitRejected, .text "full"] ∧
      RolledBack heroEnv [some 1] heroStore o' := by
  intro o o'
  have hstart : handlerEnd (quietEnv heroEnv fun _ => .done (some none)) ⟨.undo, .memory⟩ [some 1]
    none 1 "level" levelUpTogether heroStore [1] = .ok (.value 0, _) := rfl
  have hresult : o'.result = .error [.commitRejected, .text "full"] := by decide +kernel
  have ho : o.result = .panic ∧ o.closed.state = .open ∧ o.hooks = [] ∧ o.store = _ ∧ _ :=
    (commit_panic_left_open (by decide) hstart).1 (by decide +kernel)
  obtain ⟨hpanic, hopen, -, -, hrollback⟩ := ho
  refine ⟨⟨hpanic, hopen, by decide +kernel, hrollback 1 (by simp) 1 (by simp [heroEnv])⟩,
    hresult, ?_⟩
  exact (commit_panic_left_open (by decide) hstart).2 _ hresult (by decide)

/-- The participant panics: the write stays, and the transaction stays open. -/
theorem panic_not_rolled_back :
    let o := invokeWithTransaction heroEnv (fun _ => .done none) none ⟨.undo, .memory⟩ [some 1] none
      1 "level" levelUpTogether heroStore [1]
    o.result = .panic ∧ (o.store 1).fields 0 7 = 5 ∧ (heroStore 1).fields 0 7 = 0 ∧
      (o.store 1).dirty ≠ (heroStore 1).dirty ∧ o.closed.state = .open := by
  decide +kernel

end CubeCore.CommitPanics
