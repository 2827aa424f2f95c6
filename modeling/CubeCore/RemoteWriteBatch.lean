import CubeCore.RollbackTx

namespace CubeCore.RemoteWriteBatch

open RollbackTx Option Committer

inductive BatchCall where
  | finalizeLocked
  | abort
  | indeterminate
  | commit
  | close
deriving DecidableEq, Repr

/-- A batch by what it answers, given the calls it has had before. -/
structure Batch where
  finalizeLocked : Except Error (List RemoteCommit)
  abort : List BatchCall → Option Error
  indeterminate : List BatchCall → Option Error
  commit : List BatchCall → Option Error
  close : List BatchCall → Option Error

/-- `afterUnlock`: `TransactionReleased` is registered. Ghost data: the calls on the batch and the
hooks run. -/
structure Msg where
  remoteFinalized : Bool
  remoteIndeterminate : Bool
  afterUnlock : Bool
  postRemoteCommit : List Hook
  calls : List BatchCall
  hooksRun : List Hook

def Msg.new : Msg := ⟨false, false, false, [], [], []⟩

def Msg.call (m : Msg) (c : BatchCall) : Msg := { m with calls := m.calls ++ [c] }

/-- `refused` is an error before the handler, `releasePanic` a panic of a release hook,
`notifyPanic` one of `TransactionReleased`. -/
structure Dispatch (V : Type) where
  env : Env V
  handlerMeta : HandlerMeta
  entities : List (Option Int)
  committer : Option Committer
  batch : Batch
  txID : Nat
  name : String
  handler : Handler V
  store : Store V
  guard : List Int
  refused : Option Error
  releasePanic : Option Error
  notifyPanic : Bool

/-- What a part of the dispatch leaves; `answers` are the committer's. -/
structure Phase where
  msg : Msg
  error : Option Error
  answers : List (CommitRecord × Option Error)

def joinErrors : Option Error → Option Error → Option Error
  | none, e => e
  | some e, e' => some (join e e')

section Source

variable {V : Type} (b : Batch)

/-- The batch as the transaction sees it: what it says while the entities are
locked. -/
def Batch.remote : RemoteBatch where
  finalize := b.finalizeLocked
  abort := b.abort [.finalizeLocked]
  indeterminate := b.indeterminate [.finalizeLocked]
  finish := none

def finalizeRemoteWriteBatch (m : Msg) (tx : Tx V) : Msg × Tx V × Option Error :=
  match b.finalizeLocked with
  | .error e => (m.call .finalizeLocked, tx, some e)
  | .ok commits =>
    match addRemoteMutations commits tx with
    | (tx, some e) => (m.call .finalizeLocked, tx, some e)
    | (tx, none) => ({ m.call .finalizeLocked with remoteFinalized := true }, tx, none)

def abortRemoteWriteBatchLocked (m : Msg) : Msg × Option Error :=
  (m.call .abort, b.abort m.calls)

def markRemoteWriteIndeterminateLocked (m : Msg) : Msg × Option Error :=
  match b.indeterminate m.calls with
  | some e => (m.call .indeterminate, some e)
  | none => ({ m.call .indeterminate with remoteIndeterminate := true }, none)

/-- Close is called whatever the call before it said. -/
def finishRemoteWriteBatch (m : Msg) (dispatchErr : Option Error) : Msg × Option Error :=
  let (m, err) :=
    if m.remoteIndeterminate then (m, none)
    else if dispatchErr.isSome || !m.remoteFinalized then (m.call .abort, b.abort m.calls)
    else (m.call .commit, b.commit m.calls)
  let err := joinErrors err (b.close m.calls)
  let m := m.call .close
  if err.isNone && dispatchErr.isNone then ({ m with hooksRun := m.postRemoteCommit }, err)
  else (m, err)

variable (d : Dispatch V)

/-- The deferred function of `invokeWithTransaction` after a handler that returned
a value. -/
def commitPhase (s : Run V) : Phase :=
  match finalizeRemoteWriteBatch d.batch .new s.tx with
  | (m, _, some e) =>
    let (m, abortErr) := abortRemoteWriteBatchLocked d.batch m
    ⟨m, some (join e abortErr), []⟩
  | (m, tx, none) =>
    let admission := durableCommit d.env s.store d.committer tx
    match admission.error with
    | some e =>
      if .commitIndeterminate ∈ e then
        let (m, markErr) := markRemoteWriteIndeterminateLocked d.batch m
        ⟨m, some (join e markErr), admission.answers⟩
      else
        let (m, abortErr) := abortRemoteWriteBatchLocked d.batch m
        ⟨m, some (join e abortErr), admission.answers⟩
    | none =>
      ⟨{ m with
          afterUnlock := d.committer.any Committer.notifier
          postRemoteCommit := admission.tx.commit.2 }, none, admission.answers⟩

def handlerEnd (d : Dispatch V) : Except Error (HandlerResult × Run V) :=
  RollbackTx.handlerEnd d.env d.handlerMeta d.entities (some d.batch.remote) d.txID d.name
    d.handler d.store d.guard

def invokeWithTransaction : Phase :=
  match handlerEnd d with
  | .error e => ⟨.new, some e, []⟩
  | .ok (.value _, s) => commitPhase d s
  | .ok (.error e, _) => ⟨.new, some e, []⟩
  | .ok (.panic, _) => ⟨.new, some [.text "panic"], []⟩

/-- Up to the deferred function of `NestDispatch`, which takes a panic for the error. -/
def dispatched : Phase :=
  match d.refused with
  | some e => ⟨.new, some e, []⟩
  | none =>
    let phase := invokeWithTransaction d
    { phase with error := d.releasePanic <|> phase.error }

def nestDispatch : Phase :=
  let phase := dispatched d
  if phase.msg.afterUnlock && d.notifyPanic then phase
  else
    let (m, remoteErr) := finishRemoteWriteBatch d.batch phase.msg phase.error
    ⟨m, joinErrors phase.error remoteErr, phase.answers⟩

end Source

section Specification

variable {V : Type}

/-- What the committer was asked and answered, if it came to that. -/
def admission (d : Dispatch V) : Option (Admission V) :=
  match d.refused, handlerEnd d with
  | none, .ok (.value _, s) =>
    match RollbackTx.finalizeRemoteWriteBatch (some d.batch.remote) s.tx with
    | (tx, none) => some (durableCommit d.env s.store d.committer tx)
    | _ => none
  | _, _ => none

def Accepted (answers : List (CommitRecord × Option Error)) : Prop := ∃ a ∈ answers, a.2 = none

def Indeterminate (answers : List (CommitRecord × Option Error)) : Prop :=
  ∃ a ∈ answers, ∃ e, a.2 = some e ∧ Sentinel.commitIndeterminate ∈ e

/-- The handler or the finalization has failed if and only if there was no admission. -/
structure Follows (d : Dispatch V) (phase : Phase) : Prop where
  noAbort : Accepted phase.answers ∨ Indeterminate phase.answers → .abort ∉ phase.msg.calls
  noCommit : (admission d = none ∨ ∃ a ∈ phase.answers, a.2 ≠ none) → .commit ∉ phase.msg.calls
  closedOnce : phase.msg.calls.count .close = 1
  closedLast : phase.msg.calls.getLast? = some .close
  hooks : phase.msg.hooksRun ≠ [] → (∃ adm, admission d = some adm ∧ adm.error = none) ∧
    (∀ a ∈ phase.answers, a.2 = none) ∧
    ∃ before, phase.msg.calls = before ++ [.commit, .close] ∧ d.batch.commit before = none ∧
      d.batch.close (before ++ [.commit]) = none

/-- The batch can be told of an indeterminate commit, and neither a release hook of an accepted
record nor `TransactionReleased` panics. -/
structure Orderly (d : Dispatch V) : Prop where
  told : ∀ adm, admission d = some adm → Indeterminate adm.answers →
    d.batch.indeterminate [.finalizeLocked] = none
  released : ∀ adm, admission d = some adm → Accepted adm.answers → d.releasePanic = none
  notified : ∀ adm, admission d = some adm → adm.error = none →
    d.committer.any Committer.notifier = true → d.notifyPanic = false

end Specification

section Answers

variable {V : Type} {d : Dispatch V} {adm : Admission V}

variable (h : admission d = some adm)
include h

theorem admission_eq : ∃ store tx, adm = durableCommit d.env store d.committer tx := by
  unfold admission at h
  split at h
  · split at h
    · exact ⟨_, _, (some.inj h).symm⟩
    · cases h
  · cases h

theorem accepted_of_error_none (herror : adm.error = none) : ∀ a ∈ adm.answers, a.2 = none := by
  obtain ⟨store, tx, rfl⟩ := admission_eq h
  intro a ha
  rw [answer_durableCommit _ ha] at herror
  exact map_eq_none_iff.mp herror

theorem not_accepted_of_error (herror : adm.error = some e) :
    ¬ Accepted adm.answers := by
  obtain ⟨store, tx, rfl⟩ := admission_eq h
  rintro ⟨a, ha, hnone⟩
  rw [answer_durableCommit _ ha, hnone] at herror
  cases herror

theorem mem_of_indeterminate (herror : adm.error = some e) (hind : Indeterminate adm.answers) :
    .commitIndeterminate ∈ e := by
  obtain ⟨store, tx, rfl⟩ := admission_eq h
  obtain ⟨a, ha, e', he', hmem⟩ := hind
  rw [answer_durableCommit _ ha, he', map_some, if_pos hmem] at herror
  exact some.inj herror ▸ hmem

theorem not_indeterminate_of_error_none (herror : adm.error = none) :
    ¬ Indeterminate adm.answers := by
  rintro ⟨a, ha, e, he, _⟩
  rw [accepted_of_error_none h herror a ha] at he
  cases he

end Answers

section Phases

variable {V : Type} {d : Dispatch V}

def finalized : Msg := { Msg.new.call .finalizeLocked with remoteFinalized := true }

inductive Ends (d : Dispatch V) : Phase → Prop where
  | refused (hadm : admission d = none) (hfailed : error.isSome = true) : Ends d ⟨.new, error, []⟩
  | notFinalized (hadm : admission d = none) (hfailed : error.isSome = true) :
      Ends d ⟨(Msg.new.call .finalizeLocked).call .abort, error, []⟩
  | rejected (hadm : admission d = some adm)
      (hfailed : error.isSome = true) (herror : adm.error = some e)
      (hnot : .commitIndeterminate ∉ e) :
      Ends d ⟨finalized.call .abort, error, adm.answers⟩
  | told (hadm : admission d = some adm)
      (hfailed : error.isSome = true) (herror : adm.error = some e)
      (htold : d.batch.indeterminate [.finalizeLocked] = none) :
      Ends d ⟨{ finalized.call .indeterminate with remoteIndeterminate := true }, error,
        adm.answers⟩
  | untold (hadm : admission d = some adm)
      (hfailed : error.isSome = true) (herror : adm.error = some e)
      (htold : d.batch.indeterminate [.finalizeLocked] ≠ none) :
      Ends d ⟨finalized.call .indeterminate, error, adm.answers⟩
  | committed (hadm : admission d = some adm) (herror : adm.error = none) :
      Ends d ⟨{ finalized with
        afterUnlock := d.committer.any Committer.notifier
        postRemoteCommit := adm.tx.commit.2 }, d.releasePanic, adm.answers⟩

theorem finalizeRemoteWriteBatch_eq (b : Batch) (tx : Tx V) :
    finalizeRemoteWriteBatch b .new tx =
      match RollbackTx.finalizeRemoteWriteBatch (some b.remote) tx with
      | (tx, some e) => (Msg.new.call .finalizeLocked, tx, some e)
      | (tx, none) => (finalized, tx, none) := by
  unfold finalizeRemoteWriteBatch RollbackTx.finalizeRemoteWriteBatch Batch.remote
  cases b.finalizeLocked with
  | error => rfl
  | ok commits =>
    rcases addRemoteMutations commits tx with ⟨tx', _ | e⟩ <;> rfl

theorem failed_of_error (e : Error) : (d.releasePanic <|> some e).isSome = true := by
  cases d.releasePanic <;> rfl

theorem ends_commitPhase (hrefused : d.refused = none) (hend : handlerEnd d = .ok (.value ret, s)) :
    Ends d { commitPhase d s with error := d.releasePanic <|> (commitPhase d s).error } := by
  unfold commitPhase
  rw [finalizeRemoteWriteBatch_eq]
  rcases hfin : RollbackTx.finalizeRemoteWriteBatch (some d.batch.remote) s.tx with ⟨tx, _ | e⟩
  · have hadm : admission d = some (durableCommit d.env s.store d.committer tx) := by
      simp [admission, hrefused, hend, hfin]
    dsimp only
    cases herror : (durableCommit d.env s.store d.committer tx).error with
    | none =>
      have hpanic : (d.releasePanic <|> none) = d.releasePanic := by
        cases d.releasePanic <;> rfl
      rw [hpanic]
      exact .committed hadm herror
    | some =>
      dsimp only
      split_ifs with hnot
      · unfold markRemoteWriteIndeterminateLocked
        cases hmark : d.batch.indeterminate finalized.calls with
        | none => exact .told hadm (failed_of_error _) herror hmark
        | some e' => exact .untold hadm (failed_of_error _) herror (hmark ▸ some_ne_none e')
      · exact .rejected hadm (failed_of_error _) herror hnot
  · have hadm : admission d = none := by
      simp [admission, hrefused, hend, hfin]
    exact .notFinalized hadm (failed_of_error _)

theorem ends_dispatched (d : Dispatch V) : Ends d (dispatched d) := by
  unfold dispatched
  cases hrefused : d.refused with
  | some => exact .refused (by simp [admission, hrefused]) rfl
  | none =>
    unfold invokeWithTransaction
    rcases hend : handlerEnd d with e | ⟨ret | e | _, s⟩
    · exact .refused (by simp [admission, hrefused, hend]) (failed_of_error _)
    · exact ends_commitPhase hrefused hend
    · exact .refused (by simp [admission, hrefused, hend]) (failed_of_error _)
    · exact .refused (by simp [admission, hrefused, hend]) (failed_of_error _)

end Phases

section Transaction

variable {V : Type} {d : Dispatch V}

/-- The phase says what the transaction's outcome says. -/
structure Agrees (phase : Phase) (o : Outcome V) : Prop where
  answers : phase.answers = o.answers
  hooks : phase.msg.postRemoteCommit = o.hooks
  value : phase.error = none ↔ ∃ ret, o.result = .value ret
  error : ∀ e, o.result = .error e → phase.error = some e

theorem agrees_commitPhase (s : Run V) (ret : Nat) :
    Agrees (commitPhase d s) (finishTransaction d.env d.committer (some d.batch.remote) ret s) := by
  unfold commitPhase finishTransaction
  rw [finalizeRemoteWriteBatch_eq]
  rcases RollbackTx.finalizeRemoteWriteBatch (some d.batch.remote) s.tx with ⟨tx, _ | e⟩
  · dsimp only
    cases (durableCommit d.env s.store d.committer tx).error with
    | none =>
      refine ⟨rfl, ?_, ?_, ?_⟩ <;> simp
    | some =>
      dsimp only
      split
      · unfold markRemoteWriteIndeterminateLocked
        cases hmark : d.batch.indeterminate finalized.calls with
        | none =>
          have hmark : d.batch.remote.indeterminate = none := hmark
          refine ⟨rfl, rfl, ?_, ?_⟩ <;> simp [hmark]
        | some e' =>
          have hmark : d.batch.remote.indeterminate = some e' := hmark
          refine ⟨rfl, rfl, ?_, ?_⟩ <;> simp [hmark]
      · refine ⟨rfl, rfl, ?_, ?_⟩ <;>
          simp [abortRemoteWriteBatchLocked, Batch.remote, finalized, Msg.call, Msg.new]
  · refine ⟨rfl, rfl, ?_, ?_⟩ <;>
      simp [abortRemoteWriteBatchLocked, Batch.remote, Msg.call, Msg.new]

theorem agrees_invokeWithTransaction (d : Dispatch V) :
    Agrees (invokeWithTransaction d)
      (RollbackTx.invokeWithTransaction d.env d.handlerMeta d.entities d.committer
        (some d.batch.remote) d.txID d.name d.handler d.store d.guard) := by
  unfold invokeWithTransaction RollbackTx.invokeWithTransaction
  rw [handlerEnd]
  rcases RollbackTx.handlerEnd d.env d.handlerMeta d.entities (some d.batch.remote) d.txID d.name
    d.handler d.store d.guard with e | ⟨ret | e | _, s⟩
  · refine ⟨rfl, rfl, ?_, ?_⟩ <;> simp
  · exact agrees_commitPhase s ret
  · refine ⟨rfl, rfl, ?_, ?_⟩ <;> simp
  · refine ⟨rfl, rfl, ?_, ?_⟩ <;> simp

end Transaction

section Finish

variable {V : Type} {d : Dispatch V} {b : Batch} {m : Msg} {error : Option Error}

theorem finish_indeterminate (hind : m.remoteIndeterminate = true) (hfailed : error.isSome = true) :
    (finishRemoteWriteBatch b m error).1 = m.call .close := by
  obtain ⟨e, rfl⟩ := isSome_iff_exists.mp hfailed
  simp [finishRemoteWriteBatch, hind]

theorem finish_abort (hind : m.remoteIndeterminate = false) (hfailed : error.isSome = true) :
    (finishRemoteWriteBatch b m error).1 = (m.call .abort).call .close := by
  obtain ⟨e, rfl⟩ := isSome_iff_exists.mp hfailed
  simp [finishRemoteWriteBatch, hind]

theorem finish_commit (hind : m.remoteIndeterminate = false) (hfin : m.remoteFinalized = true) :
    (finishRemoteWriteBatch b m none).1.calls = m.calls ++ [.commit, .close] ∧
      ((finishRemoteWriteBatch b m none).1.hooksRun = m.hooksRun ∨
        b.commit m.calls = none ∧ b.close (m.calls ++ [.commit]) = none) := by
  simp only [finishRemoteWriteBatch, hind, hfin]
  cases hcommit : b.commit m.calls with
  | some => simp [Msg.call, joinErrors]
  | none =>
    cases hclose : b.close (m.calls ++ [.commit]) with
    | some | none => simp [Msg.call, joinErrors, hclose]

theorem nestDispatch_of_quiet (hphase : dispatched d = phase)
    (hquiet : (phase.msg.afterUnlock && d.notifyPanic) = false) :
    (nestDispatch d).msg = (finishRemoteWriteBatch d.batch phase.msg phase.error).1 ∧
      (nestDispatch d).answers = phase.answers := by
  subst hphase
  simp [nestDispatch, hquiet]

theorem follows_of_failed (hcalls : phase.msg.calls = calls) (hhooks : phase.msg.hooksRun = [])
    (hcommit : .commit ∉ calls) (honce : calls.count .close = 1)
    (hlast : calls.getLast? = some .close)
    (habort : Accepted phase.answers ∨ Indeterminate phase.answers → .abort ∉ calls) :
    Follows d phase := by
  subst hcalls
  exact ⟨habort, fun _ => hcommit, honce, hlast, fun hne => absurd hhooks hne⟩

theorem orderly_of_error (hadm : admission d = some adm) (herror : adm.error = some e)
    (htold : Indeterminate adm.answers → d.batch.indeterminate [.finalizeLocked] = none) :
    Orderly d := by
  refine ⟨fun adm' h hind => ?_, fun adm' h hacc => ?_, fun adm' h hnone _ => ?_⟩ <;>
    obtain rfl := some.inj (hadm.symm.trans h)
  · exact htold hind
  · exact absurd hacc (not_accepted_of_error hadm herror)
  · rw [herror] at hnone
    cases hnone

theorem orderly_of_none (hadm : admission d = none) : Orderly d := by
  refine ⟨fun _ h => ?_, fun _ h => ?_, fun _ h => ?_⟩ <;> rw [hadm] at h <;> cases h

theorem unanswered {P : Prop} (h : Accepted [] ∨ Indeterminate []) : P := by
  rcases h with ⟨a, ha, _⟩ | ⟨a, ha, _⟩ <;> cases ha

theorem orderly_of_committed (hadm : admission d = some adm) (herror : adm.error = none)
    (hreleased : Accepted adm.answers → d.releasePanic = none)
    (hnotified : d.committer.any notifier = true → d.notifyPanic = false) : Orderly d := by
  refine ⟨fun adm' h hind => ?_, fun adm' h hacc => ?_, fun _ _ _ => hnotified⟩ <;>
    obtain rfl := some.inj (hadm.symm.trans h)
  · exact absurd hind (not_indeterminate_of_error_none hadm herror)
  · exact hreleased hacc

theorem follows_iff_of_committed (hadm : admission d = some adm) (herror : adm.error = none)
    (hphase : dispatched d = ⟨{ finalized with
      afterUnlock := d.committer.any notifier
      postRemoteCommit := adm.tx.commit.2 }, d.releasePanic, adm.answers⟩) :
    Follows d (nestDispatch d) ↔ Orderly d := by
  have haccepted := accepted_of_error_none hadm herror
  cases hquiet : d.committer.any notifier && d.notifyPanic with
  | true =>
    obtain ⟨hnotifier, hpanic⟩ := Bool.and_eq_true_iff.mp hquiet
    refine iff_of_false (fun hfollows => ?_) (fun horderly => ?_)
    · have hunclosed : (nestDispatch d).msg.calls = [.finalizeLocked] := by
        simp [nestDispatch, hphase, hquiet, finalized, Msg.call, Msg.new]
      have honce := hfollows.closedOnce
      rw [hunclosed] at honce
      cases honce
    · rw [horderly.notified adm hadm herror hnotifier] at hpanic
      cases hpanic
  | false =>
    have hnotified : d.committer.any notifier = true → d.notifyPanic = false := by
      intro hnotifier
      simpa [hnotifier] using hquiet
    obtain ⟨hmsg, hanswers⟩ := nestDispatch_of_quiet hphase hquiet
    cases hrelease : d.releasePanic with
    | some =>
      rw [hrelease, finish_abort rfl rfl] at hmsg
      have hcalls : (nestDispatch d).msg.calls = [.finalizeLocked, .abort, .close] := by
        rw [hmsg]
        rfl
      constructor
      · intro hfollows
        refine orderly_of_committed hadm herror (fun hacc => ?_) hnotified
        have hnoAbort := hfollows.noAbort (.inl (hanswers ▸ hacc))
        rw [hcalls] at hnoAbort
        exact absurd (by decide) hnoAbort
      intro horderly
      have hnot : ¬ (Accepted adm.answers ∨ Indeterminate adm.answers) := by
        rintro (hacc | hind)
        · rw [horderly.released adm hadm hacc] at hrelease
          cases hrelease
        · exact not_indeterminate_of_error_none hadm herror hind
      refine follows_of_failed hcalls ?_ (by decide) (by decide) rfl ?_
      · rw [hmsg]
        rfl
      · rw [hanswers]
        exact fun h => absurd h hnot
    | none =>
      refine iff_of_true ?_ (orderly_of_committed hadm herror (fun _ => hrelease) hnotified)
      rw [hrelease] at hmsg
      obtain ⟨hcalls, hhooks⟩ := @finish_commit d.batch { finalized with
        afterUnlock := d.committer.any notifier
        postRemoteCommit := adm.tx.commit.2 } rfl rfl
      rw [← hmsg] at hcalls hhooks
      have hcalls : (nestDispatch d).msg.calls = [.finalizeLocked, .commit, .close] := hcalls
      refine ⟨fun _ => ?_, ?_, ?_, ?_, fun hne => ?_⟩
      · rw [hcalls]
        decide
      · rw [hanswers]
        rintro (hnone | ⟨a, ha, hrejected⟩)
        · rw [hadm] at hnone
          cases hnone
        · exact absurd (haccepted a ha) hrejected
      · rw [hcalls]
        rfl
      · rw [hcalls]
        rfl
      · refine ⟨⟨adm, hadm, herror⟩, hanswers ▸ haccepted, [.finalizeLocked], hcalls, ?_⟩
        exact hhooks.resolve_left hne

end Finish

/-- A dispatch follows the protocol of its batch exactly when the batch can be told and nothing
panics once the record is accepted. -/
theorem follows_iff_orderly {V : Type} (d : Dispatch V) :
    Follows d (nestDispatch d) ↔ Orderly d := by
  have hends := ends_dispatched d
  generalize hphase : dispatched d = phase at hends
  cases hends with
  | refused hadm hfailed | notFinalized hadm hfailed =>
    obtain ⟨hmsg, hanswers⟩ := nestDispatch_of_quiet hphase rfl
    rw [finish_abort rfl hfailed] at hmsg
    dsimp only at hmsg
    have hcalls := congrArg Msg.calls hmsg
    refine iff_of_true ?_ (orderly_of_none hadm)
    refine follows_of_failed hcalls (by rw [hmsg]; rfl) (by decide) (by decide) rfl ?_
    rw [hanswers]
    exact unanswered
  | rejected hadm hfailed herror hnot =>
    obtain ⟨hmsg, hanswers⟩ := nestDispatch_of_quiet hphase rfl
    rw [finish_abort rfl hfailed] at hmsg
    have hcalls : (nestDispatch d).msg.calls = [.finalizeLocked, .abort, .abort, .close] := by
      rw [hmsg]
      rfl
    have hind : ¬ Indeterminate _ := fun hind => hnot (mem_of_indeterminate hadm herror hind)
    refine iff_of_true ?_ (orderly_of_error hadm herror fun h => absurd h hind)
    refine follows_of_failed hcalls (by rw [hmsg]; rfl) (by decide) (by decide) rfl ?_
    rw [hanswers]
    exact fun h => absurd h (not_or.mpr ⟨not_accepted_of_error hadm herror, hind⟩)
  | told hadm hfailed herror htold =>
    obtain ⟨hmsg, _⟩ := nestDispatch_of_quiet hphase rfl
    rw [finish_indeterminate rfl hfailed] at hmsg
    have hcalls : (nestDispatch d).msg.calls = [.finalizeLocked, .indeterminate, .close] := by
      rw [hmsg]
      rfl
    refine iff_of_true ?_ (orderly_of_error hadm herror fun _ => htold)
    exact follows_of_failed hcalls (by rw [hmsg]; rfl) (by decide) (by decide) rfl
      (fun _ => by decide)
  | untold hadm hfailed herror htold =>
    -- the batch is aborted, whether the record is in the log or not
    obtain ⟨hmsg, hanswers⟩ := nestDispatch_of_quiet hphase rfl
    rw [finish_abort rfl hfailed] at hmsg
    have hcalls : (nestDispatch d).msg.calls =
        [.finalizeLocked, .indeterminate, .abort, .close] := by
      rw [hmsg]
      rfl
    constructor
    · intro hfollows
      refine orderly_of_error hadm herror fun hind => ?_
      have hnoAbort := hfollows.noAbort (.inr (hanswers ▸ hind))
      rw [hcalls] at hnoAbort
      exact absurd (by decide) hnoAbort
    intro horderly
    have hind : ¬ Indeterminate _ := fun hind => htold (horderly.told _ hadm hind)
    refine follows_of_failed hcalls (by rw [hmsg]; rfl) (by decide) (by decide) rfl ?_
    rw [hanswers]
    exact fun h => absurd h (not_or.mpr ⟨not_accepted_of_error hadm herror, hind⟩)
  | committed hadm herror => exact follows_iff_of_committed hadm herror hphase

section Example

/-- A handler that writes one remote entity, with an indeterminate commit. -/
def remoteWrite (indeterminate : Option Error) : Dispatch Unit where
  env :=
    { groupOf := fun _ => 0
      validID := fun _ => true
      entity := fun _ => ⟨true, none, none, []⟩
      dao := fun _ => ⟨.snapshotter, none, ""⟩
      comparable := fun _ => true
      prepare := fun _ => .done none
      requestID := ""
      now := 0 }
  handlerMeta := ⟨.state, .strict⟩
  entities := [some 7]
  committer := some ⟨fun _ => some [.commitIndeterminate], true⟩
  batch :=
    { finalizeLocked := .ok [⟨7, 1, 1, true⟩]
      abort := fun _ => none
      indeterminate := fun _ => indeterminate
      commit := fun _ => none
      close := fun _ => none }
  txID := 1
  name := "Trade"
  handler := .done (.value 0)
  store := fun _ => ⟨fun _ _ => (), none⟩
  guard := [7]
  refused := none
  releasePanic := none
  notifyPanic := false

example : (nestDispatch (remoteWrite none)).msg.calls =
    [.finalizeLocked, .indeterminate, .close] := by
  decide

def untold : Dispatch Unit := remoteWrite (some [.text "lease lost"])

/-- The batch cannot be told, and is aborted although the record may be in the log. -/
theorem indeterminate_aborted :
    Indeterminate (nestDispatch untold).answers ∧
      (nestDispatch untold).msg.calls = [.finalizeLocked, .indeterminate, .abort, .close] ∧
      ¬ Follows untold (nestDispatch untold) := by
  have hany : ((nestDispatch untold).answers.any fun a =>
      a.2 = some [.commitIndeterminate]) = true := by
    decide
  have hind : Indeterminate (nestDispatch untold).answers := by
    obtain ⟨a, ha, heq⟩ := List.any_eq_true.mp hany
    exact ⟨a, ha, _, of_decide_eq_true heq, .head _⟩
  have hcalls : (nestDispatch untold).msg.calls =
      [.finalizeLocked, .indeterminate, .abort, .close] := by
    decide
  refine ⟨hind, hcalls, fun hfollows => ?_⟩
  have hnoAbort := hfollows.noAbort (.inr hind)
  exact absurd (by decide) hnoAbort

end Example

end CubeCore.RemoteWriteBatch
