import CubeCore.RollbackCapture

namespace CubeCore.TransactionOutcome

open RollbackTx TransactionCalls RollbackCapture

variable {V : Type}

section Commit

variable {env : Env V}

theorem calls_prepareCommitRecord (h : prepareCommitRecord env store tx = (tx', result)) :
    Calls tx tx' ∧ ∀ r, result = .ok r → r = tx'.record env := by
  unfold prepareCommitRecord at h
  split at h
  · cases h
    exact ⟨.refl, by simp⟩
  have hp := calls_prepareParticipants env tx store tx.participants
  split at h
  all_goals
    rename_i heq
    rw [heq] at hp
  · cases h
    exact ⟨hp, by simp⟩
  dsimp only at h
  split at h
  · cases h
    exact ⟨hp, by simp⟩
  split at h
  all_goals
    cases h
    exact ⟨hp, by simp⟩

/-- At most one record was handed to the committer, and an indeterminate answer stays one. -/
structure Admitted (env : Env V) (tx : Tx V) (a : Admission V) : Prop where
  calls : Calls tx a.tx
  once : a.answers.length ≤ 1
  record : ∀ r answer, (r, answer) ∈ a.answers → r = a.tx.record env
  refused : ∀ r e, (r, some e) ∈ a.answers → ∃ e', a.error = some e' ∧
    (.commitIndeterminate ∈ e' ↔ .commitIndeterminate ∈ e)

theorem admitted_of_no_answer (hc : Calls tx tx') (error : Option Error) :
    Admitted env tx ⟨tx', [], error⟩ :=
  ⟨hc, by simp, by simp, by simp⟩

theorem admitted_durableCommit (store : Store V) (committer : Option Committer) (tx : Tx V) :
    Admitted env tx (durableCommit env store committer tx) := by
  unfold durableCommit
  split
  · exact admitted_of_no_answer .refl none
  split
  · rename_i heq
    exact admitted_of_no_answer (calls_prepareCommitRecord heq).1 _
  rename_i txp record heq
  obtain ⟨hcalls, hrecord⟩ := calls_prepareCommitRecord heq
  have hr := hrecord record rfl
  split
  · exact admitted_of_no_answer hcalls none
  split
  · split <;> exact admitted_of_no_answer hcalls _
  split
  · exact ⟨hcalls, by simp, by simp [hr], by simp⟩
  refine ⟨hcalls, by simp, by simp [hr], ?_⟩
  intro r e' hmem
  obtain ⟨_, heq⟩ := Prod.mk.inj (List.mem_singleton.mp hmem)
  cases heq
  refine ⟨_, rfl, ?_⟩
  split
  · rfl
  · simp

inductive Ending (ret : Nat) (s : Run V) (o : Outcome V) : Prop where
  | rolledBack (e : Error) (result : o.result = .error e)
      (store : o.store = (o.final.rollback s.store).2)
      (closed : o.closed = (o.final.rollback s.store).1) (hooks : o.hooks = [])
      (determinate : ∀ r e, (r, some e) ∈ o.answers → .commitIndeterminate ∉ e)
  | abandoned (e : Error) (result : o.result = .error e) (indeterminate : .commitIndeterminate ∈ e)
      (store : o.store = s.store) (closed : o.closed = o.final.abandon) (hooks : o.hooks = [])
  | committed (result : o.result = .value ret) (store : o.store = s.store)
      (closed : o.closed.state = .committed)
      (hooks : ∃ notice, (∀ n, .user n ∉ notice) ∧ o.hooks = o.final.commits ++ notice)

structure Finished (env : Env V) (ret : Nat) (s : Run V) (o : Outcome V) : Prop where
  calls : Calls s.tx o.final
  once : o.answers.length ≤ 1
  record : ∀ r answer, (r, answer) ∈ o.answers → r = o.final.record env
  locked : o.locked = s.locked
  ending : Ending ret s o

theorem finished_finishTransaction (committer : Option Committer) (remote : Option RemoteBatch)
    (ret : Nat) (hlog : Logged s.tx) :
    Finished env ret s (finishTransaction env committer remote ret s) := by
  have hfin := calls_finalizeRemoteWriteBatch s.tx remote
  unfold finishTransaction
  split
  · rename_i heq
    rw [heq] at hfin
    exact ⟨hfin, by simp, by simp, rfl, .rolledBack _ rfl rfl rfl rfl (by simp)⟩
  rename_i tx heq
  rw [heq] at hfin
  have ha : Admitted env tx (durableCommit env s.store committer tx) :=
    admitted_durableCommit s.store committer tx
  have hcalls := hfin.trans ha.calls
  dsimp only
  split
  · rename_i e he
    split
    · rename_i hind
      refine ⟨hcalls, ha.once, ha.record, rfl, .abandoned _ rfl ?_ rfl rfl rfl⟩
      exact List.mem_append_left _ hind
    rename_i hind
    refine ⟨hcalls, ha.once, ha.record, rfl, .rolledBack _ rfl rfl rfl rfl ?_⟩
    intro r e' hmem
    obtain ⟨e'', he'', hiff⟩ := ha.refused r e' hmem
    rw [he, Option.some.injEq] at he''
    exact fun hin => hind (he'' ▸ hiff.mpr hin)
  · refine ⟨hcalls, ha.once, ha.record, rfl, .committed rfl rfl ?_
      ⟨if committer.any Committer.notifier && remote.isNone
        then [Hook.transactionReleased] else [], ?_, ?_⟩⟩
    · exact congrArg (Tx.state ∘ Prod.fst) (if_pos (logged_calls hlog hcalls).isOpen)
    · intro n
      split <;> simp
    · exact congrArg Prod.snd (if_pos (logged_calls hlog hcalls).isOpen)

end Commit

section Outcome

variable {env : Env V} {m : HandlerMeta} {es : List (Option Int)} {committer : Option Committer}
  {remote : Option RemoteBatch} {id : Nat} {name : String} {handler : Handler V}
  {store : Store V} {guard : List Int}

variable {result : HandlerResult} {s : Run V}

theorem tracked_handlerEnd (hm : m.rollback ≠ .none)
    (h : handlerEnd env m es remote id name handler store guard = .ok (result, s)) :
    ∃ captured, Tracked store captured m.rollback s.tx s.store ∧
      (∀ rb ∈ captured, Faithful store rb) ∧
      (∀ rb ∈ captured, ∃ entity, some entity ∈ es ∧ owner rb ∈ (env.entity entity).daos) ∧
      ∀ entity, some entity ∈ es → ∀ dao ∈ (env.entity entity).daos,
        Covered store captured dao m.rollback := by
  unfold handlerEnd at h
  split at h
  · cases h
  rename_i tx hcapture
  have hs : (runHandler env handler ⟨tx, store, guard, guard⟩).2 = s :=
    congrArg Prod.snd (Except.ok.inj h)
  obtain ⟨hstart, hrest⟩ := tracked_captureEntities hm hcapture
  rw [← hs]
  exact ⟨tx.rollbacks, tracked_runHandler handler (s := ⟨tx, store, guard, guard⟩) hstart, hrest⟩

/-- How a call ends, with the handler's own run. -/
inductive Ended (env : Env V) (store : Store V) (start : Except Error (HandlerResult × Run V))
    (guard : List Int) (o : Outcome V) : Prop where
  | notStarted (e : Error) (hstart : start = .error e) (result : o.result = .error e)
      (same : o.store = store) (calls : o.final.calls = []) (answers : o.answers = [])
      (hooks : o.hooks = []) (locked : o.locked = guard)
  | failed (result : HandlerResult) (s : Run V) (hstart : start = .ok (result, s))
      (noValue : ∀ ret, result ≠ .value ret) (same : o.result = result) (final : o.final = s.tx)
      (rolledBack : o.store = (s.tx.rollback s.store).2)
      (closed : o.closed = (s.tx.rollback s.store).1) (answers : o.answers = [])
      (hooks : o.hooks = []) (locked : o.locked = s.locked)
  | returned (ret : Nat) (s : Run V) (hstart : start = .ok (.value ret, s))
      (finished : Finished env ret s o)

theorem ended_invokeWithTransaction (hm : m.rollback ≠ .none) :
    Ended env store (handlerEnd env m es remote id name handler store guard) guard
      (invokeWithTransaction env m es committer remote id name handler store guard) := by
  unfold invokeWithTransaction
  split
  · rename_i e heq
    exact .notStarted e heq rfl rfl rfl rfl rfl rfl
  · rename_i ret s heq
    obtain ⟨_, htracked, _⟩ := tracked_handlerEnd hm heq
    exact .returned ret s heq (finished_finishTransaction committer remote ret htracked.logged)
  · rename_i result s hvalue heq
    exact .failed result s heq (fun ret h => hvalue ret h) rfl rfl rfl rfl rfl rfl rfl

theorem rollback_restores (hm : m.rollback ≠ .none)
    (h : handlerEnd env m es remote id name handler store guard = .ok (result, s))
    (hc : Calls s.tx tx) (hdao : (∃ entity, some entity ∈ es ∧ dao ∈ (env.entity entity).daos) ∨
      s.store dao = store dao) : (tx.rollback s.store).2 dao = store dao := by
  obtain ⟨captured, htracked, hfaithful, _, hcovered⟩ := tracked_handlerEnd hm h
  refine tracked_rollback (tracked_calls htracked hc) hm hfaithful (hdao.imp_left ?_)
  rintro ⟨entity, hentity, hmem⟩
  exact hcovered entity hentity dao hmem

def heroEnv : Env Nat where
  groupOf id := id / 1000
  validID id := decide (0 < id)
  entity id := ⟨false, none, none, [id.toNat]⟩
  dao _ := ⟨.snapshotter, none, "hero"⟩
  comparable _ := true
  prepare _ := .done none
  requestID := ""
  now := 0

def heroStore : Store Nat := fun _ => ⟨fun _ _ => 0, some ⟨0, 0, 0, 0⟩⟩

/-- Sets one key of a map field, registers a hook and emits an effect. -/
def levelUp : Handler Nat :=
  .call (.write 1 0 (.entry 7 5) 1 1) fun _ _ =>
    .call (.tx (.afterCommit 1)) fun _ _ =>
      .call (.tx (.emit ⟨"level", "hero", "", [], []⟩)) fun _ _ => .done (.value 0)

/-- A call of a setter: what it writes and the bits it marks. -/
structure Setter (V : Type) where
  dao : Nat
  field : Nat
  value : FieldWrite V
  persist : UInt64
  sync : UInt64

def callSetters (s : Run V) (setters : List (Setter V)) : Run V :=
  setters.foldl (fun s x => write s x.dao x.field x.value x.persist x.sync) s

theorem tracked_callSetters (setters : List (Setter V))
    (h : Tracked store captured policy s.tx s.store) :
    Tracked store captured policy (callSetters s setters).tx (callSetters s setters).store := by
  induction setters generalizing s with
  | nil => exact h
  | cons x setters ih => exact ih (tracked_write h x.dao x.field x.value x.persist x.sync)

/-- The undo functions give back every place of every field, then the masks are put back. -/
theorem rollback_undoes_setters {durability : DurabilityPolicy} {tx : Tx V} {remoteBatch : Bool}
    (hcapture : captureEntities env store remoteBatch es [] (Tx.new id ⟨.undo, durability⟩ name) =
      .ok tx) (setters : List (Setter V)) :
    let s := callSetters ⟨tx, store, guard, guard⟩ setters
    (∃ undone, fieldsOf undone = fieldsOf store ∧
      (s.tx.rollback s.store).2 = tx.rollbacks.foldr Rollback.apply undone) ∧
    fieldsOf (s.tx.rollback s.store).2 = fieldsOf store ∧
    ∀ entity, some entity ∈ es → ∀ dao ∈ (env.entity entity).daos,
      ((s.tx.rollback s.store).2 dao).dirty = (store dao).dirty := by
  intro s
  obtain ⟨hstart, hfaithful, -, hcovered⟩ :=
    tracked_captureEntities (m := ⟨.undo, durability⟩) (by simp) hcapture
  have h : Tracked store tx.rollbacks .undo s.tx s.store :=
    tracked_callSetters setters (s := ⟨tx, store, guard, guard⟩) hstart
  obtain ⟨undos, hrollbacks, -, -, hunwind⟩ := h.undos
  have hundone := (undo_rollbacks undos s.store).1.trans (hunwind rfl)
  have hrollback : (s.tx.rollback s.store).2 = tx.rollbacks.foldr Rollback.apply
      ((undos.map FieldUndo.rollback).foldr Rollback.apply s.store) := by
    rw [Tx.rollback, if_pos h.logged.isOpen, hrollbacks, List.foldr_append]
  refine ⟨⟨_, hundone, hrollback⟩, ?_, fun entity hentity dao hdao => ?_⟩
  · rw [hrollback]
    funext dao
    exact fields_foldr hfaithful (.inr (congrFun hundone dao))
  · rw [tracked_rollback h (by simp) hfaithful (.inl (hcovered entity hentity dao hdao))]

def mixedSetters : List (Setter Nat) :=
  [⟨1, 0, .entry 7 5, 1, 1⟩, ⟨1, 0, .whole fun _ => 3, 1, 1⟩, ⟨1, 0, .entry 8 1, 1, 1⟩,
    ⟨1, 0, .entry 7 9, 1, 1⟩]

theorem rollback_undoes_mixed_setters :
    ∃ tx, captureEntities heroEnv heroStore false [some 1] [] (Tx.new 1 ⟨.undo, .memory⟩ "hero") =
        .ok tx ∧
      let s := callSetters ⟨tx, heroStore, [1], [1]⟩ mixedSetters
      (s.store 1).fields 0 7 = 9 ∧ fieldsOf (s.tx.rollback s.store).2 = fieldsOf heroStore := by
  obtain ⟨tx, h⟩ : ∃ tx, captureEntities heroEnv heroStore false [some 1] []
    (Tx.new 1 ⟨.undo, .memory⟩ "hero") = .ok tx := ⟨_, rfl⟩
  exact ⟨tx, h, rfl, (rollback_undoes_setters h mixedSetters).2.1⟩

end Outcome

end CubeCore.TransactionOutcome
