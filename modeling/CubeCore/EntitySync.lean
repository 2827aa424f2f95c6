import CubeCore.SubjectSync
import CubeCore.Interleaving
import Mathlib.Data.List.AList

namespace CubeCore.EntitySync

open SubjectSync Interleaving

inductive SubscriberKind where
  | none
  | player
  | server
  | entity
  | group
deriving DecidableEq

structure SubscriberRef where
  kind : SubscriberKind
  id : Int
  sid : Int
  key : String
deriving DecidableEq

def SubscriberRef.normalize (r : SubscriberRef) : SubscriberRef :=
  if r.kind = .none && r.id ≠ 0 then { r with kind := .player } else r

def SubscriberRef.empty (r : SubscriberRef) : Bool :=
  r.normalize.kind = .none ||
    (r.normalize.id = 0 && r.normalize.sid = 0 && r.normalize.key = "")

inductive SubscriptionState where
  | pending
  | active
  | closing
deriving DecidableEq

structure Subscription where
  subscriber : SubscriberRef
  subject : Subject
  profile : SyncProfile
  state : SubscriptionState
  contentVersion : Nat
  revision : Nat
deriving DecidableEq

inductive EnvelopeKind where
  | snapshot
  | delta
  | leave
deriving DecidableEq

def Payload (F V : Type) : Type := F → Option V

structure DeliveryEnvelope (F V : Type) where
  subscriber : SubscriberRef
  kind : EnvelopeKind
  update : SubjectSyncUpdate (Payload F V)

/-- An envelope that the sink has admitted, with the state object it comes from. -/
structure Admitted (F V : Type) where
  origin : Nat
  envelope : DeliveryEnvelope F V

abbrev Table : Type := AList fun _ : SubscriberRef => Subscription

def errSubscriberInvalid : SyncError := .cause "entitysync: subscriber is invalid"
def errSubscriptionSubject : SyncError := .cause "entitysync: subscription subject is invalid"
def errEnvelopeSinkRequired : SyncError := .cause "entitysync: reliable envelope sink is required"
def errSubscriptionNotFound : SyncError := .cause "entitysync: subscription not found"
def errSubscriptionState : SyncError := .cause "entitysync: invalid subscription state"
def errPreparedProfilesMissing : SyncError :=
  .cause "entitysync: prepared update is missing a subscribed profile"

/-- The errors with what the calls join to them. -/
def errEnvelopeAdmission (text : String) : SyncError :=
  .cause ("entitysync: envelope admission failed\n" ++ text)

def errProfileMissing (profile : SyncProfile) : SyncError :=
  .cause ("entitysync: prepared update is missing a subscribed profile: " ++ profile.key.quote)

/-- `states` are the subject's state objects, `locked o` the locks of object `o`, `op` the operation
lock. Ghost data: `log` is what each subscriber was admitted, last first, `owner` who took a
token. -/
structure Sync (F V : Type) where
  content : SyncProfile → F → V
  states : Nat → SubjectSyncState
  current : Nat
  locked : Nat → Option Nat
  op : Option Nat
  subs : Table
  revision : Nat
  sink : Bool
  log : SubscriberRef → List (Admitted F V)
  owner : Nat → Nat → Nat

/-- Where a goroutine is in `FlushSubject`, `Subscribe` or `Unsubscribe`, with what
it has read. -/
inductive PC (F V : Type) where
  | idle (err : Option SyncError)
  | flush (o : Nat)
  | prepare (o : Nat) (profiles : List SyncProfile)
  | packing (o : Nat) (t : Ticket) (profiles : List SyncProfile)
  | prepared (o : Nat) (t : Ticket) (updates : List (SubjectSyncUpdate (Payload F V)))
  | distribute (o : Nat) (t : Ticket) (updates : List (SubjectSyncUpdate (Payload F V)))
  | admitBatch (o : Nat) (t : Ticket) (updates : List (SubjectSyncUpdate (Payload F V)))
      (subs : List Subscription) (envelopes : List (DeliveryEnvelope F V))
  | commit (o : Nat) (t : Ticket) (updates : List (SubjectSyncUpdate (Payload F V)))
      (subs : List Subscription)
  | update (version : Nat) (subs : List Subscription)
  | abort (o : Nat) (t : Ticket) (updates : List (SubjectSyncUpdate (Payload F V)))
      (cause err : SyncError)
  | subscribe (o : Nat) (subscriber : SubscriberRef) (profile : SyncProfile)
  | lookup (o : Nat) (subscriber : SubscriberRef) (profile : SyncProfile)
  | install (o : Nat) (subscriber : SubscriberRef) (profile : SyncProfile)
      (existing : Option Subscription)
  | capture (o : Nat) (pending : Subscription) (existing : Option Subscription)
  | snapshot (o : Nat) (pending : Subscription) (existing : Option Subscription) (version : Nat)
  | admitSnapshot (o : Nat) (pending : Subscription) (existing : Option Subscription)
      (update : SubjectSyncUpdate (Payload F V))
  | activate (pending : Subscription) (version : Nat)
  | rollback (subscriber : SubscriberRef) (existing : Option Subscription) (err : SyncError)
  | unsubscribe (subscriber : SubscriberRef)
  | leave (subscriber : SubscriberRef)
  | admitLeave (closing : Subscription)
  | delete (closing : Subscription)
  | restore (closing : Subscription) (err : SyncError)
  | release (err : Option SyncError)

/-- A step of a call, an error of the packer or the sink, or a step of the entity: a change, marks,
`Close`, a new load. -/
inductive Act (F V : Type) where
  | flush (o : Nat)
  | subscribe (o : Nat) (subscriber : SubscriberRef) (profile : SyncProfile)
  | unsubscribe (subscriber : SubscriberRef)
  | run
  | fail (profile : SyncProfile) (text : String)
  | change (f : F) (v : SyncProfile → V)
  | markDirty (mask : BitVec 64)
  | markFullDirty (reason : BitVec 32)
  | close
  | load (content : SyncProfile → F → V)

variable {F V : Type}

section Functions

/-- The packer writes the values of all fields, or of those whose bit is in the mask. -/
def packer (bit : F → Fin 64) (content : SyncProfile → F → V) :
    SubjectSyncPacker (Payload F V) where
  packSubjectSnapshot profile := .ok fun f => some (content profile f)
  packSubjectDelta profile mask :=
    .ok fun f => if mask.getLsbD (bit f) then some (content profile f) else none

def activeSubscriptions (subs : Table) : List Subscription :=
  (subs.entries.map Sigma.snd).filter fun sub => sub.state = .active

def profiles (subs : Table) : List SyncProfile :=
  ((activeSubscriptions subs).map fun sub => sub.profile.normalize).dedup.mergeSort
    SyncProfile.before

/-- A later update of the same profile replaces an earlier one. -/
def byProfile (updates : List (SubjectSyncUpdate (Payload F V))) (profile : SyncProfile) :
    Option (SubjectSyncUpdate (Payload F V)) :=
  updates.reverse.find? fun u => u.profile.normalize = profile

def envelopes (updates : List (SubjectSyncUpdate (Payload F V))) :
    List Subscription → Except SyncProfile (List (DeliveryEnvelope F V))
  | [] => .ok []
  | sub :: subs =>
    match byProfile updates sub.profile.normalize with
    | none => .error sub.profile
    | some u =>
      (envelopes updates subs).map
        (⟨sub.subscriber, if u.full then .snapshot else .delta, u⟩ :: ·)

def setContentVersion (version : Nat) (subs : Table) (sub : Subscription) : Table :=
  match subs.lookup sub.subscriber with
  | none => subs
  | some current =>
    if current.state = .active && current.revision = sub.revision then
      subs.insert sub.subscriber { current with contentVersion := version }
    else subs

def rollbackSubscription (subs : Table) (subscriber : SubscriberRef) :
    Option Subscription → Table
  | some previous => subs.insert subscriber previous
  | none => subs.erase subscriber

def sameSubject (updates : List (SubjectSyncUpdate (Payload F V))) : Bool :=
  updates.all fun u => some u.subject.subjectID = updates.head?.map (·.subject.subjectID)

def snapshotUpdate (subject : Subject) (profile : SyncProfile) (version : Nat)
    (payload : Payload F V) : SubjectSyncUpdate (Payload F V) where
  subject := subject
  profile := profile
  version := version
  baseVersion := version
  mask := 0
  full := true
  reason := syncFullReasonResync
  payload := payload

def leaveUpdate (sub : Subscription) : SubjectSyncUpdate (Payload F V) where
  subject := sub.subject
  profile := sub.profile
  version := sub.contentVersion
  baseVersion := sub.contentVersion
  mask := 0
  full := false
  reason := syncFullReasonNone
  payload := fun _ => none

end Functions

namespace Sync

def setState (s : Sync F V) (o : Nat) (state : SubjectSyncState) : Sync F V :=
  { s with states := Function.update s.states o state }

def lock (s : Sync F V) (o : Nat) (g : Option Nat) : Sync F V :=
  { s with locked := Function.update s.locked o g }

def admitAll (s : Sync F V) (o : Nat) (batch : List (DeliveryEnvelope F V)) : Sync F V :=
  { s with
    log := fun r =>
      (batch.filter fun e => e.subscriber = r).map (Admitted.mk o) ++ s.log r }

end Sync

def step [DecidableEq F] (bit : F → Fin 64) (g : Nat) (s : Sync F V) :
    PC F V → Act F V → Option (Sync F V × PC F V)
  | .idle _, .flush o =>
    if s.current < o then none
    else if (s.states o).subject.subjectID = 0 then some (s, .idle (some errSubscriptionSubject))
    else some (s, .flush o)
  | .idle _, .subscribe o subscriber profile =>
    if s.current < o then none
    else if subscriber.empty then some (s, .idle (some errSubscriberInvalid))
    else if (s.states o).subject.subjectID = 0 then some (s, .idle (some errSubscriptionSubject))
    else some (s, .subscribe o subscriber.normalize profile.normalize)
  | .idle _, .unsubscribe subscriber =>
    if subscriber.empty then some (s, .idle (some errSubscriberInvalid))
    else some (s, .unsubscribe subscriber.normalize)
  -- the value is only read under the entity lock, which is held until the mark is set
  | .idle err, .change f v =>
    if s.locked s.current ≠ none then none
    else
      some
        ({ s.setState s.current
            ((s.states s.current).markDirty (BitVec.twoPow 64 (bit f))) with
            content := fun profile f' => if f' = f then v profile else s.content profile f' },
          .idle err)
  | .idle err, .markDirty mask =>
    some (s.setState s.current ((s.states s.current).markDirty mask), .idle err)
  | .idle err, .markFullDirty reason =>
    some (s.setState s.current ((s.states s.current).markFullDirty reason), .idle err)
  | .idle err, .close =>
    if s.locked s.current ≠ none then none
    else some (s.setState s.current (s.states s.current).close, .idle err)
  | .idle err, .load content =>
    if (s.states s.current).enabled then none
    else
      some
        ({ s.setState (s.current + 1)
            (newSubjectSyncState (s.states s.current).subject true) with
            current := s.current + 1
            content := content },
          .idle err)
  -- FlushSubject
  | .flush o, .run => some (s, .prepare o (profiles s.subs))
  | .prepare o ps, .run =>
    if s.locked o ≠ none then none
    else
      match (s.states o).startPrepare with
      | (state, .error err) =>
        some (s.setState o state, .idle (if err = .notDirty then none else some err))
      | (state, .ok t) =>
        some
          ({ (s.setState o state).lock o (some g) with
              owner := Function.update s.owner o (Function.update (s.owner o) t.token g) },
            .packing o t (normalizeSyncProfiles ps))
  | .packing o t ps, .run =>
    match t.updates (packer bit s.content) ps with
    | .ok updates => some (s.lock o none, .prepared o t updates)
    | .error (profile, err) =>
      some ((s.setState o ((s.states o).failPrepare t.token (.cause err))).lock o none,
        .idle (some (.pack t.subject.subjectID profile.key err)))
  | .packing o t _, .fail profile err =>
    some ((s.setState o ((s.states o).failPrepare t.token (.cause err))).lock o none,
      .idle (some (.pack t.subject.subjectID profile.key err)))
  | .prepared o t updates, .run =>
    if (updates.head?.map (·.subject.subjectID)).getD 0 = 0 then
      some (s.setState o
          ((s.states o).abort (t.prepared updates) (some errSubscriptionSubject)).1,
        .idle (some errSubscriptionSubject))
    else if s.op = none then some ({ s with op := some g }, .distribute o t updates)
    else none
  | .distribute o t updates, .run =>
    if !sameSubject updates then
      some (s, .abort o t updates errSubscriptionSubject errSubscriptionSubject)
    else if !(activeSubscriptions s.subs).isEmpty && !s.sink then
      some (s, .abort o t updates errEnvelopeSinkRequired errEnvelopeSinkRequired)
    else
      match envelopes updates (activeSubscriptions s.subs) with
      | .error profile =>
        some (s, .abort o t updates errPreparedProfilesMissing (errProfileMissing profile))
      | .ok batch => some (s, .admitBatch o t updates (activeSubscriptions s.subs) batch)
  -- an empty batch is not given to the sink
  | .admitBatch o t updates subs batch, .run =>
    some (s.admitAll o batch, .commit o t updates subs)
  | .admitBatch o t updates _ batch, .fail _ text =>
    if batch.isEmpty then none
    else some (s, .abort o t updates (.cause text) (errEnvelopeAdmission text))
  | .commit o t updates subs, .run =>
    match (s.states o).commit (t.prepared updates) with
    | (state, some err) => some (s.setState o state, .release (some err))
    | (state, none) => some (s.setState o state, .update t.version subs)
  | .update version subs, .run =>
    some ({ s with subs := subs.foldl (setContentVersion version) s.subs }, .release none)
  | .abort o t updates cause err, .run =>
    some (s.setState o ((s.states o).abort (t.prepared updates) (some cause)).1,
      .release (some err))
  -- Subscribe
  | .subscribe o subscriber profile, .run =>
    if s.op = none then some ({ s with op := some g }, .lookup o subscriber profile) else none
  | .lookup o subscriber profile, .run =>
    if (s.subs.lookup subscriber).any fun e => e.state = .active && e.profile = profile then
      some (s, .release none)
    else some (s, .install o subscriber profile (s.subs.lookup subscriber))
  | .install o subscriber profile existing, .run =>
    let pending : Subscription :=
      { subscriber := subscriber
        subject := (s.states o).subject
        profile := profile
        state := .pending
        contentVersion := 0
        revision := s.revision + 1 }
    some ({ s with subs := s.subs.insert subscriber pending, revision := s.revision + 1 },
      if s.sink then .capture o pending existing
      else .rollback subscriber existing errEnvelopeSinkRequired)
  | .capture o pending existing, .run =>
    if s.locked o ≠ none then none
    else
      match (s.states o).snapshotVersion with
      | .error err =>
        some (s.setState o ((s.states o).setSubjectSyncError (some err)),
          .rollback pending.subscriber existing err)
      | .ok version => some (s.lock o (some g), .snapshot o pending existing version)
  | .snapshot o pending existing version, .run =>
    match (packer bit s.content).packSubjectSnapshot pending.profile with
    | .ok payload =>
      some ((s.setState o ((s.states o).setSubjectSyncError none)).lock o none,
        .admitSnapshot o pending existing
          (snapshotUpdate (s.states o).subject pending.profile version payload))
    | .error err =>
      some ((s.setState o ((s.states o).setSubjectSyncError (some (.cause err)))).lock o none,
        .rollback pending.subscriber existing
          (.pack (s.states o).subject.subjectID pending.profile.key err))
  | .snapshot o pending existing _, .fail _ err =>
    some ((s.setState o ((s.states o).setSubjectSyncError (some (.cause err)))).lock o none,
      .rollback pending.subscriber existing
        (.pack (s.states o).subject.subjectID pending.profile.key err))
  | .admitSnapshot o pending _ u, .run =>
    some (s.admitAll o [⟨pending.subscriber, .snapshot, u⟩], .activate pending u.version)
  | .admitSnapshot _ pending existing _, .fail _ text =>
    some (s, .rollback pending.subscriber existing (errEnvelopeAdmission text))
  | .activate pending version, .run =>
    if (s.subs.lookup pending.subscriber).any fun current =>
        current.revision = pending.revision && current.state = .pending then
      some
        ({ s with
            subs := s.subs.insert pending.subscriber
              { pending with state := .active, contentVersion := version } },
          .release none)
    else some (s, .release (some errSubscriptionState))
  | .rollback subscriber existing err, .run =>
    some ({ s with subs := rollbackSubscription s.subs subscriber existing }, .release (some err))
  -- Unsubscribe
  | .unsubscribe subscriber, .run =>
    if s.op = none then some ({ s with op := some g }, .leave subscriber) else none
  | .leave subscriber, .run =>
    match s.subs.lookup subscriber with
    | none => some (s, .release (some errSubscriptionNotFound))
    | some current =>
      if current.state ≠ .active then some (s, .release (some errSubscriptionState))
      else
        let closing := { current with state := .closing, revision := s.revision + 1 }
        some ({ s with subs := s.subs.insert subscriber closing, revision := s.revision + 1 },
          if s.sink then .admitLeave closing else .restore closing errEnvelopeSinkRequired)
  | .admitLeave closing, .run =>
    some (s.admitAll s.current [⟨closing.subscriber, .leave, leaveUpdate closing⟩],
      .delete closing)
  | .admitLeave closing, .fail _ text => some (s, .restore closing (errEnvelopeAdmission text))
  | .delete closing, .run =>
    if (s.subs.lookup closing.subscriber).any fun latest =>
        latest.revision = closing.revision && latest.state = .closing then
      some ({ s with subs := s.subs.erase closing.subscriber }, .release none)
    else some (s, .release none)
  | .restore closing err, .run =>
    some
      ({ s with subs := s.subs.insert closing.subscriber { closing with state := .active } },
        .release (some err))
  | .release err, .run => some ({ s with op := none }, .idle err)
  | _, _ => none

def next [DecidableEq F] (bit : F → Fin 64) :
    Threads (Sync F V) (PC F V) → Nat × Act F V → Option (Threads (Sync F V) (PC F V)) :=
  Interleaving.next (step bit)

def initial (subject : Subject) (sink : Bool) (content : SyncProfile → F → V) :
    Threads (Sync F V) (PC F V) where
  shared :=
    { content := content
      -- objects that are not loaded yet are closed
      states := fun o => { newSubjectSyncState subject true with enabled := o = 0 }
      current := 0
      locked := fun _ => none
      op := none
      subs := ∅
      revision := 0
      sink := sink
      log := fun _ => []
      owner := fun _ _ => 0 }
  pc := fun _ => .idle none

end CubeCore.EntitySync
