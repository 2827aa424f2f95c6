import CubeCore.EntityGuard
import CubeCore.PersistDirty

namespace CubeCore.RollbackTx

open EntityGuard
open PersistDirty (DirtySnapshot)

inductive RollbackPolicy where
  | none
  | state
  | undo
deriving DecidableEq, Repr

inductive DurabilityPolicy where
  | memory
  | async
  | strict
deriving DecidableEq, Repr

structure HandlerMeta where
  rollback : RollbackPolicy
  durability : DurabilityPolicy

inductive Sentinel where
  | rollbackUnsupported
  | transactionClosed
  | committerRequired
  | durableRemoteWriteUnsupported
  | commitRejected
  | commitIndeterminate
  | castInvalidTarget
  | castDeadlockRisk
  | remoteWriteCapabilityDisabled
  | text (message : String)
deriving DecidableEq, Repr

/-- An error by what `errors.Is` finds in it; joined errors are appended. -/
abbrev Error := List Sentinel

variable {V : Type}

/-- The content of a field, by the keys of a map field. -/
abbrev Content (V : Type) := Nat → V

/-- `dirty` is none for a DAO that has no dirty tracker. -/
@[ext]
structure DaoState (V : Type) where
  fields : Nat → Content V
  dirty : Option DirtySnapshot

abbrev Store (V : Type) := Nat → DaoState V

/-- A generated setter replaces a whole field or sets one key of a map field. -/
inductive FieldWrite (V : Type) where
  | whole (content : Content V)
  | entry (key : Nat) (value : V)

namespace FieldWrite

def token : FieldWrite V → Option Nat
  | .whole _ => none
  | .entry key _ => some key

def apply : FieldWrite V → Content V → Content V
  | .whole content, _ => content
  | .entry key value, old => Function.update old key value

def inverse : FieldWrite V → Content V → FieldWrite V
  | .whole _, old => .whole old
  | .entry key _, old => .entry key (old key)

end FieldWrite

def setField (fields : Nat → Content V) (field : Nat) (w : FieldWrite V) : Nat → Content V :=
  Function.update fields field (w.apply (fields field))

structure UndoKey where
  owner : Nat
  field : Nat
  token : Option Nat
deriving DecidableEq, Repr

/-- The dirty restore of `undo`, the snapshot restore of `state` and the inverse of a write. -/
inductive Rollback (V : Type) where
  | dirty (dao : Nat) (snapshot : DirtySnapshot)
  | state (dao : Nat) (fields : Nat → Content V) (dirty : Option DirtySnapshot)
  | undo (dao field : Nat) (inverse : FieldWrite V)

def Rollback.apply : Rollback V → Store V → Store V
  | .dirty dao snapshot, store =>
    Function.update store dao { store dao with dirty := some snapshot }
  | .state dao fields tracked, store =>
    Function.update store dao ⟨fields, tracked <|> (store dao).dirty⟩
  | .undo dao field inverse, store =>
    Function.update store dao
      { store dao with fields := setField (store dao).fields field inverse }

structure RemoteCommit where
  entityID : Int
  nextVersion : Nat
  schema : Nat
  valid : Bool
deriving DecidableEq, Repr

structure EntityMutation where
  entityID : Int
  database : String
  databaseScope : Nat
  resource : String
  version : Nat
  mask : UInt64
  schema : Nat
  codec : String
  data : List UInt8
  remote : Option RemoteCommit
deriving DecidableEq, Repr

namespace EntityMutation

def invalid (m : EntityMutation) : Bool :=
  m.entityID = 0 || m.resource = "" || (m.data.isEmpty && m.remote.isNone)

def key (m : EntityMutation) : String × String × Int := (m.database, m.resource, m.entityID)

end EntityMutation

structure Effect where
  id : String
  topic : String
  key : String
  payload : List UInt8
  headers : List (String × String)
deriving DecidableEq, Repr

structure CommitRecord where
  id : Nat
  handler : String
  requestID : String
  createdAt : Int
  durability : DurabilityPolicy
  mutations : List EntityMutation
  effects : List Effect
deriving DecidableEq, Repr

def CommitRecord.empty (r : CommitRecord) : Bool :=
  r.mutations.isEmpty && r.effects.isEmpty

inductive Hook where
  | user (n : Nat)
  | transactionReleased
deriving DecidableEq, Repr

inductive TxCall where
  | afterCommit (hook : Nat)
  | emit (effect : Effect)
  | addMutation (mutation : EntityMutation)
  | registerCommitParticipant (participant : Nat)
deriving DecidableEq, Repr

inductive TxState where
  | open
  | committed
  | rolledBack
deriving DecidableEq, Repr

/-- `calls` is ghost data: the calls that went through, effects with the id they were given. -/
structure Tx (V : Type) where
  id : Nat
  policy : RollbackPolicy
  durability : DurabilityPolicy
  handler : String
  state : TxState
  rollbacks : List (Rollback V)
  commits : List Hook
  undoKeys : List UndoKey
  participants : List Nat
  mutations : List EntityMutation
  effects : List Effect
  remoteWrite : Bool
  calls : List TxCall

/-- Sixteen bytes in hexadecimal digits. -/
def transactionIDString (id : Nat) : String :=
  String.ofList ((Nat.toDigits 16 id).leftpad 32 '0')

namespace Tx

def new (id : Nat) (m : HandlerMeta) (handler : String) : Tx V where
  id := id
  policy := m.rollback
  durability := m.durability
  handler := handler
  state := .open
  rollbacks := []
  commits := []
  undoKeys := []
  participants := []
  mutations := []
  effects := []
  remoteWrite := false
  calls := []

variable (tx : Tx V)

def deferRollback (rb : Rollback V) : Tx V :=
  if tx.state = .open then { tx with rollbacks := tx.rollbacks ++ [rb] } else tx

/-- `RecordUndoToken`: only the first inverse of a key is kept. -/
def recordUndo (key : UndoKey) (rb : Rollback V) : Tx V :=
  if tx.policy ≠ .undo ∨ tx.state ≠ .open ∨ key ∈ tx.undoKeys then tx
  else { tx with undoKeys := tx.undoKeys ++ [key], rollbacks := tx.rollbacks ++ [rb] }

def afterCommit (tx : Tx V) (hook : Nat) : Tx V :=
  if tx.state = .open then
    { tx with commits := tx.commits ++ [.user hook], calls := tx.calls ++ [.afterCommit hook] }
  else tx

def emit (tx : Tx V) (effect : Effect) : Tx V × Option Error :=
  if tx.state ≠ .open then (tx, some [.transactionClosed])
  else if effect.topic = "" then (tx, some [.text "nest: effect topic is empty"])
  else
    let effect :=
      if effect.id = "" then
        { effect with id := transactionIDString tx.id ++ ":" ++ toString (tx.effects.length + 1) }
      else effect
    if effect.id ∈ tx.effects.map Effect.id then
      (tx, some [.text ("nest: duplicate effect id " ++ effect.id.quote)])
    else
      ({ tx with
          durability := if tx.durability = .memory then .strict else tx.durability
          effects := tx.effects ++ [effect]
          calls := tx.calls ++ [.emit effect] }, none)

def addMutation (tx : Tx V) (m : EntityMutation) : Tx V × Option Error :=
  if tx.state ≠ .open then (tx, some [.transactionClosed])
  else if m.invalid then (tx, some [.text "nest: invalid entity mutation"])
  else if m.key ∈ tx.mutations.map EntityMutation.key then
    (tx, some [.text ("nest: duplicate entity mutation " ++ m.database ++ "/" ++ m.resource ++
      "/" ++ toString m.entityID)])
  else
    ({ tx with
        mutations := tx.mutations ++ [m]
        calls := tx.calls ++ [.addMutation m] }, none)

def registerCommitParticipant (comparable : Nat → Bool) (tx : Tx V) (participant : Nat) :
    Tx V × Option Error :=
  if tx.state ≠ .open then (tx, some [.transactionClosed])
  else if !comparable participant then
    (tx, some [.text "nest: commit participant is not comparable"])
  else if participant ∈ tx.participants then (tx, none)
  else
    ({ tx with
        participants := tx.participants ++ [participant]
        calls := tx.calls ++ [.registerCommitParticipant participant] }, none)

/-- Rollback functions run in reverse order, and none of them fails. -/
def rollback (store : Store V) : Tx V × Store V :=
  if tx.state = .open then
    ({ tx with state := .rolledBack, commits := [], mutations := [], effects := [] },
      tx.rollbacks.foldr Rollback.apply store)
  else (tx, store)

/-- The closed transaction and the hooks that are handed on. -/
def commit : Tx V × List Hook :=
  if tx.state = .open then
    ({ tx with state := .committed, rollbacks := [], undoKeys := [], participants := [] },
      tx.commits)
  else (tx, [])

def abandon : Tx V :=
  if tx.state = .open then
    { tx with
      state := .committed
      rollbacks := []
      commits := []
      undoKeys := []
      participants := [] }
  else tx

end Tx

/-- A program that makes calls and gets to see their errors and a state. -/
inductive Program (C S R : Type) where
  | done (result : R)
  | call (c : C) (next : Option Error → S → Program C S R)

/-- By a snapshot, by a `CaptureRollback` of its own, which restores the whole DAO, or not at
all. -/
inductive CaptureKind where
  | snapshotter
  | custom
  | failing (error : Error)
  | unsupported

structure DaoSpec where
  capture : CaptureKind
  participant : Option Nat
  name : String

/-- `captureError` is the error of the entity's own `CaptureRollback`, if it has
one that fails. -/
structure EntitySpec where
  remoteManaged : Bool
  participant : Option Nat
  captureError : Option Error
  daos : List Nat

/-- What surrounds a transaction. `prepare` gives the `PrepareCommit` of each
participant. -/
structure Env (V : Type) where
  groupOf : Int → Int
  validID : Int → Bool
  entity : Int → EntitySpec
  dao : Nat → DaoSpec
  comparable : Nat → Bool
  prepare : Nat → Program TxCall (Store V) (Option Error)
  requestID : String
  now : Int

/-- `refused` says which targets of a cast are not found or cannot be locked. -/
inductive HandlerCall (V : Type) where
  | tx (c : TxCall)
  | write (dao field : Nat) (w : FieldWrite V) (persist sync : UInt64)
  | castMulti (targets : List Int) (refused : Int → Option Error)
  | releaseCast (id : Int)

inductive HandlerResult where
  | value (ret : Nat)
  | error (e : Error)
  | panic
deriving DecidableEq, Repr

abbrev Handler (V : Type) := Program (HandlerCall V) (Store V) HandlerResult

/-- `locked` is ghost data: every entity the dispatch has locked so far. -/
structure Run (V : Type) where
  tx : Tx V
  store : Store V
  guard : List Int
  locked : List Int

variable (env : Env V)

def Tx.call (tx : Tx V) : TxCall → Tx V × Option Error
  | .afterCommit hook => (tx.afterCommit hook, none)
  | .emit effect => tx.emit effect
  | .addMutation m => tx.addMutation m
  | .registerCommitParticipant p => tx.registerCommitParticipant env.comparable p

def markDirty (persist sync : UInt64) (dirty : Option DirtySnapshot) : Option DirtySnapshot :=
  dirty.map fun d =>
    { d with persistDirty := d.persistDirty ||| persist, syncDirty := d.syncDirty ||| sync }

/-- A setter records the inverse first, then writes and marks the field dirty. -/
def write (s : Run V) (dao field : Nat) (w : FieldWrite V) (persist sync : UInt64) : Run V :=
  { s with
    tx := s.tx.recordUndo ⟨dao, field, w.token⟩
      (.undo dao field (w.inverse ((s.store dao).fields field)))
    store := Function.update s.store dao
      ⟨setField (s.store dao).fields field w, markDirty persist sync (s.store dao).dirty⟩ }

/-- When a target of `CastMulti` cannot be locked, those locked by the call are released. -/
def castLock (refused : Int → Option Error) (guard : List Int) :
    List Int → List Int → Except Error (List Int)
  | [], lockedNow => .ok lockedNow
  | id :: rest, lockedNow =>
    if id ∈ guard ∨ id ∈ lockedNow then castLock refused guard rest lockedNow
    else match refused id with
      | some e => .error e
      | none => castLock refused guard rest (lockedNow ++ [id])

def castMulti (guard targets : List Int) (refused : Int → Option Error) : Except Error (List Int) :=
  if targets = [] ∨ targets.any fun id => id = 0 || !env.validID id then
    .error [.castInvalidTarget]
  else if !checkContainAllIDs env.groupOf guard targets then .error [.castDeadlockRisk]
  else if targets.any fun id => (env.entity id).remoteManaged && decide (id ∉ guard) then
    .error [.remoteWriteCapabilityDisabled]
  else castLock refused guard (sortEntity env.groupOf targets) []

def runCall (s : Run V) : HandlerCall V → Run V × Option Error
  | .tx c =>
    let reply := s.tx.call env c
    ({ s with tx := reply.1 }, reply.2)
  | .write dao field w persist sync => (write s dao field w persist sync, none)
  | .castMulti targets refused =>
    match castMulti env s.guard targets refused with
    | .error e => (s, some e)
    | .ok lockedNow =>
      ({ s with guard := s.guard ++ lockedNow, locked := s.locked ++ lockedNow }, none)
  | .releaseCast id => ({ s with guard := s.guard.filter (· ≠ id) }, none)

def runHandler : Handler V → Run V → HandlerResult × Run V
  | .done result, s => (result, s)
  | .call c next, s =>
    let reply := runCall env s c
    runHandler (next reply.2 reply.1.store) reply.1

def runPrepare (store : Store V) : Program TxCall (Store V) (Option Error) → Tx V →
    Tx V × Option Error
  | .done result, tx => (tx, result)
  | .call c next, tx =>
    let reply := tx.call env c
    runPrepare store (next reply.2 store) reply.1

def registerOptional (tx : Tx V) (remoteManaged : Bool) : Option Nat → Tx V × Option Error
  | some p => if remoteManaged then (tx, none) else tx.registerCommitParticipant env.comparable p
  | none => (tx, none)

variable (store : Store V)

def captureDao (tx : Tx V) (dao : Nat) : Except Error (Tx V) :=
  let dirty := (store dao).dirty
  if tx.policy = .undo then
    match dirty with
    | some snapshot => .ok (tx.deferRollback (.dirty dao snapshot))
    | none => .ok tx
  else match (env.dao dao).capture with
    | .custom => .ok (tx.deferRollback (.state dao (store dao).fields dirty))
    | .snapshotter => .ok (tx.deferRollback (.state dao (store dao).fields dirty))
    | .failing e => .error e
    | .unsupported => .error [.rollbackUnsupported,
        .text ("dao " ++ (env.dao dao).name ++
          " requires RollbackSnapshotter or RollbackParticipant")]

def captureDaos (store : Store V) (remoteManaged : Bool) : List Nat → Tx V → Except Error (Tx V)
  | [], tx => .ok tx
  | dao :: rest, tx =>
    match registerOptional env tx remoteManaged (env.dao dao).participant with
    | (_, some e) => .error e
    | (tx, none) => do
        let tx ← captureDao env store tx dao
        captureDaos store remoteManaged rest tx

/-- One round of the loop of `CaptureEntities`. -/
def captureEntity (remoteBatch : Bool) (id : Int) (tx : Tx V) : Except Error (Tx V) :=
  let e := env.entity id
  if e.remoteManaged ∧ tx.durability ≠ .memory ∧ !remoteBatch then
    .error [.durableRemoteWriteUnsupported]
  else
    let tx := { tx with remoteWrite := tx.remoteWrite || e.remoteManaged }
    match registerOptional env tx e.remoteManaged e.participant with
    | (_, some err) => .error err
    | (tx, none) =>
      if tx.policy = .none then .ok tx
      else match (if tx.policy = .state then e.captureError else none) with
        | some err => .error err
        | none => captureDaos env store e.remoteManaged e.daos tx

def captureEntities (store : Store V) (remoteBatch : Bool) :
    List (Option Int) → List Int → Tx V → Except Error (Tx V)
  | [], _, tx => .ok tx
  | none :: es, seen, tx => captureEntities store remoteBatch es seen tx
  | some id :: es, seen, tx =>
    if id ∈ seen then captureEntities store remoteBatch es seen tx
    else do
      let tx ← captureEntity env store remoteBatch id tx
      captureEntities store remoteBatch es (id :: seen) tx

def validateMutation (i : Nat) (m : EntityMutation) : Option Error :=
  if m.invalid then some [.text ("nest: invalid mutation " ++ toString i)]
  else if m.remote.any fun c => !c.valid then
    some [.text ("nest: invalid remote mutation " ++ toString i)]
  else none

def validateEffect (i : Nat) (e : Effect) : Option Error :=
  if e.id = "" ∨ e.topic = "" then some [.text ("nest: invalid effect " ++ toString i)]
  else none

def validateCommitRecord (r : CommitRecord) : Option Error :=
  if r.id = 0 then some [.text "nest: zero transaction id"]
  else (r.mutations.zipIdx.findSome? fun x => validateMutation x.2 x.1) <|>
    r.effects.zipIdx.findSome? fun x => validateEffect x.2 x.1

/-- The loop over the participants that were registered when it began. -/
def prepareParticipants (store : Store V) : List Nat → Tx V → Tx V × Option Error
  | [], tx => (tx, none)
  | p :: rest, tx =>
    match runPrepare env store (env.prepare p) tx with
    | (tx, some e) => (tx, some (.text "nest: prepare commit" :: e))
    | (tx, none) => prepareParticipants store rest tx

def Tx.record (tx : Tx V) : CommitRecord where
  id := tx.id
  handler := tx.handler
  requestID := env.requestID
  createdAt := env.now
  durability := tx.durability
  mutations := tx.mutations
  effects := tx.effects

def prepareCommitRecord (tx : Tx V) : Tx V × Except Error CommitRecord :=
  if tx.state ≠ .open then (tx, .error [.transactionClosed])
  else match prepareParticipants env store tx.participants tx with
    | (tx, some e) => (tx, .error e)
    | (tx, none) =>
      let record := tx.record env
      if record.empty then (tx, .ok record)
      else match validateCommitRecord record with
        | some e => (tx, .error e)
        | none => (tx, .ok record)

/-- Its answer to a record, and whether it is told when the locks are released. -/
structure Committer where
  commit : CommitRecord → Option Error
  notifier : Bool

/-- What `durableCommit` leaves: transaction, calls and answers of the committer, error. -/
structure Admission (V : Type) where
  tx : Tx V
  answers : List (CommitRecord × Option Error)
  error : Option Error

def durableCommit (committer : Option Committer) (tx : Tx V) : Admission V :=
  if tx.durability = .memory ∧ tx.effects = [] then ⟨tx, [], none⟩
  else match prepareCommitRecord env store tx with
    | (tx, .error e) => ⟨tx, [], some e⟩
    | (tx, .ok record) =>
      if record.empty then ⟨tx, [], none⟩
      else match committer with
        | none =>
          if tx.durability ≠ .memory ∨ record.effects ≠ [] then
            ⟨tx, [], some [.committerRequired]⟩
          else ⟨tx, [], none⟩
        | some c =>
          match c.commit record with
          | none => ⟨tx, [(record, none)], none⟩
          | some e =>
            ⟨tx, [(record, some e)],
              some (if .commitIndeterminate ∈ e then e else .commitRejected :: e)⟩

theorem answer_durableCommit {committer : Option Committer} {record : CommitRecord}
    {answer : Option Error} {store : Store V} {tx : Tx V}
    (h : (record, answer) ∈ (durableCommit env store committer tx).answers) :
    (durableCommit env store committer tx).error =
      answer.map fun e => if .commitIndeterminate ∈ e then e else .commitRejected :: e := by
  revert h
  fun_cases durableCommit env store committer tx with
  | case6 | case7 =>
    intro h
    obtain ⟨_, rfl⟩ := Prod.mk.inj (List.mem_singleton.mp h)
    rfl
  | _ => exact fun h => absurd h List.not_mem_nil

/-- `finish` is the error of its Commit or Close at the end of the dispatch. -/
structure RemoteBatch where
  finalize : Except Error (List RemoteCommit)
  abort : Option Error
  indeterminate : Option Error
  finish : Option Error

def remoteMutation (c : RemoteCommit) : EntityMutation where
  entityID := c.entityID
  database := ""
  databaseScope := 0
  resource := "remote_entity"
  version := c.nextVersion
  mask := 0
  schema := c.schema
  codec := "remote"
  data := []
  remote := some c

def addRemoteMutations : List RemoteCommit → Tx V → Tx V × Option Error
  | [], tx => (tx, none)
  | c :: rest, tx =>
    match tx.addMutation (remoteMutation c) with
    | (tx, some e) => (tx, some e)
    | (tx, none) => addRemoteMutations rest tx

def finalizeRemoteWriteBatch (remote : Option RemoteBatch) (tx : Tx V) : Tx V × Option Error :=
  match remote with
  | none => (tx, none)
  | some batch =>
    match batch.finalize with
    | .error e => (tx, some e)
    | .ok commits => addRemoteMutations commits tx

/-- `final` is the transaction just before it was closed, `closed` what it is then. -/
structure Outcome (V : Type) where
  result : HandlerResult
  store : Store V
  final : Tx V
  closed : Tx V
  answers : List (CommitRecord × Option Error)
  hooks : List Hook
  locked : List Int

def join (e : Error) (e' : Option Error) : Error := e ++ e'.getD []

/-- The part of the deferred function after a handler that returned a value. -/
def finishTransaction (committer : Option Committer) (remote : Option RemoteBatch)
    (ret : Nat) (s : Run V) : Outcome V :=
  match finalizeRemoteWriteBatch remote s.tx with
  | (tx, some e) =>
    { result := .error (join e (remote.bind RemoteBatch.abort))
      store := (tx.rollback s.store).2
      final := tx
      closed := (tx.rollback s.store).1
      answers := []
      hooks := []
      locked := s.locked }
  | (tx, none) =>
    let admission := durableCommit env s.store committer tx
    match admission.error with
    | some e =>
      if .commitIndeterminate ∈ e then
        { result := .error (join e (remote.bind RemoteBatch.indeterminate))
          store := s.store
          final := admission.tx
          closed := admission.tx.abandon
          answers := admission.answers
          hooks := []
          locked := s.locked }
      else
        { result := .error (join e (remote.bind RemoteBatch.abort))
          store := (admission.tx.rollback s.store).2
          final := admission.tx
          closed := (admission.tx.rollback s.store).1
          answers := admission.answers
          hooks := []
          locked := s.locked }
    | none =>
      let notice := if committer.any Committer.notifier && remote.isNone
        then [Hook.transactionReleased] else []
      let (closed, hooks) :=
        Tx.commit { admission.tx with commits := admission.tx.commits ++ notice }
      { result := .value ret
        store := s.store
        final := admission.tx
        closed := closed
        answers := admission.answers
        hooks := hooks
        locked := s.locked }

/-- The handler's own run, if the capture of the entities has let it begin. -/
def handlerEnd (m : HandlerMeta) (es : List (Option Int)) (remote : Option RemoteBatch)
    (id : Nat) (name : String) (handler : Handler V) (store : Store V) (guard : List Int) :
    Except Error (HandlerResult × Run V) :=
  match captureEntities env store remote.isSome es [] (Tx.new id m name) with
  | .error e => .error e
  | .ok tx => .ok (runHandler env handler ⟨tx, store, guard, guard⟩)

/-- `invokeWithTransaction` for a handler with a rollback policy. -/
def invokeWithTransaction (m : HandlerMeta) (es : List (Option Int))
    (committer : Option Committer) (remote : Option RemoteBatch) (id : Nat) (name : String)
    (handler : Handler V) (store : Store V) (guard : List Int) : Outcome V :=
  match handlerEnd env m es remote id name handler store guard with
  | .error e =>
    { result := .error e
      store := store
      final := Tx.new id m name
      closed := Tx.new id m name
      answers := []
      hooks := []
      locked := guard }
  | .ok (.value ret, s) => finishTransaction env committer remote ret s
  | .ok (result, s) =>
    { result := result
      store := (s.tx.rollback s.store).2
      final := s.tx
      closed := (s.tx.rollback s.store).1
      answers := []
      hooks := []
      locked := s.locked }

/-- The guard runs the hooks when it is released; with a remote write batch they wait for the
batch. -/
def hooksRun (remote : Option RemoteBatch) (o : Outcome V) : List Hook :=
  if (remote.bind RemoteBatch.finish).isNone then o.hooks else []

end CubeCore.RollbackTx
