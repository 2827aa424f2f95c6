import Mathlib.Data.List.AList
import CubeCore.NumberedLog

namespace CubeCore.SyncStream

structure Observer where
  kind : Nat := 0
  id : Int := 0
  session : Int := 0
  scope : String := ""
deriving DecidableEq

structure Stream where
  topic : String := ""
  key : Int := 0
deriving DecidableEq

structure Packet where
  observer : Observer := {}
  stream : Stream := {}
  epoch : Nat := 0
  sequence : Nat := 0
  baseSequence : Nat := 0
  schemaVersion : Nat := 0
  full : Bool := false
  critical : Bool := false
  payload : List UInt8 := []
deriving DecidableEq

structure StreamKey where
  observer : Observer
  stream : Stream
deriving DecidableEq

def Packet.key (packet : Packet) : StreamKey := ⟨packet.observer, packet.stream⟩

structure HistoryOptions where
  maxPacketsPerStream : Int := 0
  schemaVersion : Nat := 0
  maxPayloadBytes : Int := 0
  maxStreams : Int := 0
  epoch : Nat := 0
  idleTTL : Int := 0
  pruneAcknowledged : Bool := false

structure StreamState where
  latest : Nat := 0
  acked : Nat := 0
  dropped : Nat := 0
  pruned : Nat := 0
  schema : Nat := 0
  activity : Int := 0
  items : List Packet := []

/-- The sentinel errors of the package, and the errors of the journal and of a
snapshot provider. -/
inductive HistoryError where
  | topicRequired
  | ackAhead
  | ackEpochMismatch
  | payloadTooLarge
  | streamLimit
  | schemaTransitionRequiresFull
  | snapshotProviderRequired
  | invalidSnapshot (detail : String)
  | journal (text : String)
  | provider (text : String)
deriving DecidableEq

inductive HistoryMutationKind where
  | append
  | acknowledge
  | deleteStream
  | deleteObserver
  | sweepIdle
  | rotateEpoch
deriving DecidableEq

structure HistoryMutation where
  version : Nat := 1
  kind : HistoryMutationKind
  epoch : Nat := 0
  packet : Packet := {}
  observer : Observer := {}
  stream : Stream := {}
  sequence : Nat := 0
  targets : List StreamKey := []
  pruneAcknowledged : Bool := false
deriving DecidableEq

structure HistoryStreamSnapshot where
  observer : Observer
  stream : Stream
  latest : Nat := 0
  acked : Nat := 0
  dropped : Nat := 0
  pruned : Nat := 0
  schema : Nat := 0
  lastActivityUnixNano : Int := 0
  packets : List Packet := []

def HistoryStreamSnapshot.key (item : HistoryStreamSnapshot) : StreamKey :=
  ⟨item.observer, item.stream⟩

structure HistorySnapshot where
  version : Nat
  epoch : Nat
  streams : List HistoryStreamSnapshot

def historySnapshotVersion : Nat := 1

/-- `Record` can fail, and may have changed the state when it does. -/
structure HistoryJournal (J : Type) where
  load : J → Except String HistorySnapshot × J
  record : HistoryMutation → J → Option String × J
  checkpoint : HistorySnapshot → J → Option String × J

def noJournal : HistoryJournal Unit where
  load j := (.error "", j)
  record _ j := (none, j)
  checkpoint _ j := (none, j)

structure History (J : Type) where
  options : HistoryOptions
  epoch : Nat
  journal : Option J
  streams : AList fun _ : StreamKey => StreamState

/-- What `newEpoch` reads: eight random bytes, when there are any, and the clock. -/
structure Entropy where
  random : Option Nat
  unixNano : Nat

def newEpoch (entropy : Entropy) : Nat :=
  match entropy.random with
  | some value => if value ≠ 0 then value else entropy.unixNano ||| 1
  | none => entropy.unixNano ||| 1

variable (entropy : Entropy)

theorem newEpoch_ne_zero : newEpoch entropy ≠ 0 := by
  have hclock : entropy.unixNano ||| 1 ≠ 0 := by
    intro h
    exact absurd (Nat.or_eq_zero_iff.mp h).2 Nat.one_ne_zero
  unfold newEpoch
  split
  · split
    · assumption
    · exact hclock
  · exact hclock

variable {J : Type}

def newHistory (options : HistoryOptions) (entropy : Entropy) : History J :=
  let options :=
    { options with
      maxPacketsPerStream :=
        if options.maxPacketsPerStream ≤ 0 then 256 else options.maxPacketsPerStream
      schemaVersion := if options.schemaVersion = 0 then 1 else options.schemaVersion
      epoch := if options.epoch = 0 then newEpoch entropy else options.epoch }
  { options, epoch := options.epoch, journal := none, streams := ∅ }

theorem newHistory_epoch_ne_zero (options : HistoryOptions) (entropy : Entropy) :
    (newHistory options entropy : History J).epoch ≠ 0 := by
  show (if options.epoch = 0 then newEpoch entropy else options.epoch) ≠ 0
  split
  · exact newEpoch_ne_zero entropy
  · assumption

/-- `journal.Record`, where the history has a journal. -/
def record (ops : HistoryJournal J) (h : History J) (mutation : HistoryMutation) :
    Option String × History J :=
  match h.journal with
  | none => (none, h)
  | some journal =>
    let (err, journal') := ops.record mutation journal
    (err, { h with journal := some journal' })

def sequenced (h : History J) (state : StreamState) (packet : Packet) : Packet :=
  { packet with
    schemaVersion :=
      if packet.schemaVersion = 0 then h.options.schemaVersion else packet.schemaVersion
    epoch := h.epoch
    sequence := state.latest + 1
    baseSequence := if packet.full then 0 else state.latest }

/-- The stream once a packet is stored; the oldest packets over the limit go. -/
def StreamState.push (state : StreamState) (limit : Int) (packet : Packet) (now : Int) :
    StreamState :=
  let items := state.items ++ [packet]
  let overflow := ((items.length : Int) - limit).toNat
  { state with
    latest := packet.sequence
    schema := packet.schemaVersion
    activity := now
    items := items.drop overflow
    dropped := state.dropped + overflow }

def append (ops : HistoryJournal J) (h : History J) (packet : Packet) (now : Int) :
    History J × Except HistoryError Packet :=
  if packet.stream.topic = "" then (h, .error .topicRequired)
  else if 0 < h.options.maxPayloadBytes ∧ h.options.maxPayloadBytes < packet.payload.length then
    (h, .error .payloadTooLarge)
  else if (h.streams.lookup packet.key).isNone ∧ 0 < h.options.maxStreams ∧
      h.options.maxStreams ≤ h.streams.entries.length then
    (h, .error .streamLimit)
  else
    -- A stream that is created here has `latest` 0 and passes the schema check; a
    -- failed `Record` takes it back.
    let state := (h.streams.lookup packet.key).getD {}
    let stored := sequenced h state packet
    if 0 < state.latest ∧ stored.schemaVersion ≠ state.schema ∧ packet.full = false then
      (h, .error .schemaTransitionRequiresFull)
    else
      match record ops h { kind := .append, epoch := h.epoch, packet := stored } with
      | (some err, h) => (h, .error (.journal err))
      | (none, h) =>
        ({ h with
            streams := h.streams.insert packet.key
              (state.push h.options.maxPacketsPerStream stored now) },
          .ok stored)

/-- The stream once it is acknowledged up to `sequence`. -/
def StreamState.acknowledge (state : StreamState) (prune : Bool) (sequence : Nat) (now : Int) :
    StreamState :=
  let items :=
    if prune then state.items.dropWhile (fun packet => packet.sequence ≤ sequence)
    else state.items
  { state with
    acked := sequence
    items
    pruned := state.pruned + (state.items.length - items.length)
    activity := now }

variable (ops : HistoryJournal J) (h : History J)

def acknowledgeEpoch (observer : Observer) (stream : Stream) (epoch sequence : Nat) (now : Int) :
    History J × Except HistoryError Unit :=
  if epoch ≠ h.epoch then (h, .error .ackEpochMismatch)
  else
    match h.streams.lookup ⟨observer, stream⟩ with
    | none => if sequence = 0 then (h, .ok ()) else (h, .error .ackAhead)
    | some state =>
      if state.latest < sequence then (h, .error .ackAhead)
      else if state.acked < sequence then
        match record ops h
          { kind := .acknowledge, epoch := h.epoch, observer, stream, sequence,
            pruneAcknowledged := h.options.pruneAcknowledged } with
        | (some err, h) => (h, .error (.journal err))
        | (none, h) =>
          ({ h with
              streams := h.streams.insert ⟨observer, stream⟩
                (state.acknowledge h.options.pruneAcknowledged sequence now) },
            .ok ())
      else (h, .ok ())

def acknowledge (observer : Observer) (stream : Stream) (sequence : Nat) (now : Int) :
    History J × Except HistoryError Unit :=
  acknowledgeEpoch ops h observer stream h.epoch sequence now

inductive ResyncReason where
  | none
  | historyMissing
  | historyGap
  | schemaMismatch
  | clientAhead
  | epochMismatch
deriving DecidableEq

structure ResyncRequest where
  observer : Observer
  stream : Stream
  epoch : Nat
  afterSequence : Nat
  schemaVersion : Nat

variable (request : ResyncRequest)

def ResyncRequest.key : StreamKey := ⟨request.observer, request.stream⟩

structure ResyncResult where
  packets : List Packet := []
  fullRequired : Bool := false
  reason : ResyncReason := .none
  latestSequence : Nat := 0
deriving DecidableEq

/-- One schema, and every delta is based on the packet before it. -/
def contiguous (schema : Nat) : Nat → List Packet → Bool
  | _, [] => true
  | previous, packet :: rest =>
    if packet.schemaVersion ≠ schema ∨ packet.full = false ∧ packet.baseSequence ≠ previous then
      false
    else contiguous schema packet.sequence rest

def resync : ResyncResult :=
  if request.epoch ≠ 0 ∧ request.epoch ≠ h.epoch then
    { fullRequired := true, reason := .epochMismatch }
  else
    match h.streams.lookup request.key with
    | none => { fullRequired := true, reason := .historyMissing }
    | some state =>
      let full := fun reason =>
        { fullRequired := true, reason, latestSequence := state.latest : ResyncResult }
      if state.latest < request.afterSequence then full .clientAhead
      else if request.schemaVersion ≠ 0 ∧ 0 < state.latest ∧
          state.schema ≠ request.schemaVersion then
        full .schemaMismatch
      else if request.afterSequence = state.latest then { latestSequence := state.latest }
      else
        match state.items.dropWhile (fun packet => packet.sequence ≤ request.afterSequence) with
        | [] => full .historyGap
        | first :: rest =>
          if request.schemaVersion ≠ 0 ∧ first.schemaVersion ≠ request.schemaVersion then
            full .schemaMismatch
          else if first.full = false ∧ first.baseSequence ≠ request.afterSequence then
            full .historyGap
          else if contiguous first.schemaVersion first.sequence rest = false then
            full .historyGap
          else { packets := first :: rest, latestSequence := state.latest }

/-- The packet of a snapshot provider as `Recover` appends it. -/
def recoveryPacket (packet : Packet) : Packet :=
  { packet with
    observer := request.observer
    stream := request.stream
    full := true
    schemaVersion :=
      if request.schemaVersion ≠ 0 then request.schemaVersion else packet.schemaVersion }

/-- With no other call between its `Resync` and its `Append`; in general these are two steps. -/
def recover (provider : Option (ResyncRequest → Except String Packet)) (now : Int) :
    History J × ResyncResult × Option HistoryError :=
  let result := resync h request
  if result.fullRequired = false then (h, result, none)
  else
    match provider with
    | none => (h, result, some .snapshotProviderRequired)
    | some snapshot =>
      match snapshot request with
      | .error err => (h, result, some (.provider err))
      | .ok packet =>
        match append ops h (recoveryPacket request packet) now with
        | (h, .error err) => (h, result, some err)
        | (h, .ok stored) =>
          (h, { packets := [stored], reason := result.reason,
                latestSequence := stored.sequence }, none)

def rotateEpoch (ops : HistoryJournal J) (h : History J) (epoch : Nat) (entropy : Entropy) :
    History J × Except HistoryError Unit :=
  let epoch := if epoch = 0 then newEpoch entropy else epoch
  if epoch = h.epoch then (h, .ok ())
  else
    match record ops h { kind := .rotateEpoch, epoch } with
    | (some err, h) => (h, .error (.journal err))
    | (none, h) => ({ h with epoch, streams := ∅ }, .ok ())

def deleteStream (ops : HistoryJournal J) (h : History J) (observer : Observer)
    (stream : Stream) : History J × Except HistoryError Unit :=
  if (h.streams.lookup ⟨observer, stream⟩).isNone then (h, .ok ())
  else
    match record ops h { kind := .deleteStream, epoch := h.epoch, observer, stream } with
    | (some err, h) => (h, .error (.journal err))
    | (none, h) => ({ h with streams := h.streams.erase ⟨observer, stream⟩ }, .ok ())

def eraseAll (streams : AList fun _ : StreamKey => StreamState) (keys : List StreamKey) :
    AList fun _ : StreamKey => StreamState :=
  keys.foldl (fun streams key => streams.erase key) streams

def deleteObserver (ops : HistoryJournal J) (h : History J) (observer : Observer) :
    History J × Except HistoryError Nat :=
  let keys := h.streams.keys.filter (fun key => key.observer = observer)
  if keys.length = 0 then (h, .ok 0)
  else
    match record ops h { kind := .deleteObserver, epoch := h.epoch, observer } with
    | (some err, h) => (h, .error (.journal err))
    | (none, h) => ({ h with streams := eraseAll h.streams keys }, .ok keys.length)

/-- The streams that have seen no append and no acknowledgement since `cutoff`. -/
def idleKeys (cutoff : Int) : List StreamKey :=
  (h.streams.entries.filter fun entry =>
    entry.2.activity ≠ 0 ∧ entry.2.activity ≤ cutoff).map (·.1)

def sweepIdle (ops : HistoryJournal J) (h : History J) (now : Int) :
    History J × Except HistoryError Nat :=
  if h.options.idleTTL ≤ 0 then (h, .ok 0)
  else
    let keys := idleKeys h (now - h.options.idleTTL)
    if keys.length = 0 then (h, .ok 0)
    else
      match record ops h { kind := .sweepIdle, epoch := h.epoch, targets := keys } with
      | (some err, h) => (h, .error (.journal err))
      | (none, h) => ({ h with streams := eraseAll h.streams keys }, .ok keys.length)

/-- What `Import` finds wrong with a packet's place; `previous` is of the packet before it. -/
def placeFault (packet : Packet) : Option (Nat × Nat) → Option String
  | none =>
    if packet.full = false ∧ packet.baseSequence + 1 ≠ packet.sequence then
      some "invalid first packet base"
    else none
  | some (previous, previousSchema) =>
    if packet.sequence ≠ previous + 1 ∨ packet.full = false ∧ packet.baseSequence ≠ previous then
      some "broken packet chain"
    else if packet.schemaVersion ≠ previousSchema ∧ packet.full = false then
      some "schema transition without full packet"
    else none

/-- The loop of `Import` over the packets of a stream. -/
def checkPackets (options : HistoryOptions) (epoch : Nat) (item : HistoryStreamSnapshot) :
    Option (Nat × Nat) → List Packet → Except HistoryError Unit
  | _, [] => .ok ()
  | previous, packet :: rest =>
    if packet.observer ≠ item.observer ∨ packet.stream ≠ item.stream ∨ packet.epoch ≠ epoch ∨
        packet.sequence = 0 ∨ packet.schemaVersion = 0 then
      .error (.invalidSnapshot "packet identity mismatch")
    else if 0 < options.maxPayloadBytes ∧ options.maxPayloadBytes < packet.payload.length then
      .error .payloadTooLarge
    else
      match placeFault packet previous with
      | some fault => .error (.invalidSnapshot fault)
      | none =>
        if packet.full = true ∧ packet.baseSequence ≠ 0 then
          .error (.invalidSnapshot "full packet has a base")
        else
          checkPackets options epoch item (some (packet.sequence, packet.schemaVersion)) rest

/-- The state of an imported stream, without the checks. -/
def HistoryStreamSnapshot.state (item : HistoryStreamSnapshot) (limit : Int) (now : Int) :
    StreamState :=
  let overflow := ((item.packets.length : Int) - limit).toNat
  { latest := item.latest
    acked := item.acked
    dropped := item.dropped + overflow
    pruned := item.pruned
    schema := (item.packets.getLast?.map (·.schemaVersion)).getD item.schema
    activity := if item.lastActivityUnixNano = 0 then now else item.lastActivityUnixNano
    items := item.packets.drop overflow }

def importStream (options : HistoryOptions) (epoch : Nat) (now : Int)
    (item : HistoryStreamSnapshot) : Except HistoryError StreamState :=
  if item.latest < item.acked ∨
      0 < item.latest ∧ item.packets.length = 0 ∧ item.acked ≠ item.latest then
    .error (.invalidSnapshot "inconsistent sequence metadata")
  else
    match checkPackets options epoch item none item.packets with
    | .error err => .error err
    | .ok () =>
      if (item.packets.getLast?.any fun packet => packet.sequence ≠ item.latest) then
        .error (.invalidSnapshot "latest sequence mismatch")
      else
        let state := item.state options.maxPacketsPerStream now
        if 0 < state.latest ∧ state.schema = 0 then
          .error (.invalidSnapshot "stream schema is required")
        else .ok state

/-- The loop of `Import` over the streams. -/
def importStreams (options : HistoryOptions) (epoch : Nat) (now : Int) :
    Nat → AList (fun _ : StreamKey => StreamState) → List HistoryStreamSnapshot →
      Except HistoryError (AList fun _ : StreamKey => StreamState)
  | _, streams, [] => .ok streams
  | index, streams, item :: rest =>
    if item.stream.topic = "" then
      .error (.invalidSnapshot ("stream " ++ toString index ++ " has no topic"))
    else if (streams.lookup ⟨item.observer, item.stream⟩).isSome then
      .error (.invalidSnapshot "duplicate stream")
    else
      match importStream options epoch now item with
      | .error err => .error err
      | .ok state =>
        importStreams options epoch now (index + 1)
          (streams.insert ⟨item.observer, item.stream⟩ state) rest

/-- `Import`. -/
def importSnapshot (snapshot : HistorySnapshot) (now : Int) :
    History J × Except HistoryError Unit :=
  if snapshot.version ≠ historySnapshotVersion then
    (h, .error (.invalidSnapshot ("unsupported version " ++ toString snapshot.version)))
  else if snapshot.epoch = 0 then (h, .error (.invalidSnapshot "epoch is required"))
  else if 0 < h.options.maxStreams ∧ h.options.maxStreams < snapshot.streams.length then
    (h, .error .streamLimit)
  else
    match importStreams h.options snapshot.epoch now 0 ∅ snapshot.streams with
    | .error err => (h, .error err)
    | .ok streams => ({ h with streams, epoch := snapshot.epoch }, .ok ())

def newHistoryWithJournal (options : HistoryOptions) (entropy : Entropy) (journal : J) (now : Int) :
    Except HistoryError (History J) :=
  let h : History J := newHistory options entropy
  match ops.load journal with
  | (.error err, _) => .error (.journal err)
  | (.ok snapshot, journal) =>
    match importSnapshot h snapshot now with
    | (_, .error err) => .error err
    | (h, .ok ()) => .ok { h with journal := some journal }

inductive Call where
  | append (packet : Packet) (now : Int)
  | acknowledge (observer : Observer) (stream : Stream) (sequence : Nat) (now : Int)
  | acknowledgeEpoch (observer : Observer) (stream : Stream) (epoch sequence : Nat) (now : Int)
  | resync (request : ResyncRequest)
  | recover (request : ResyncRequest) (provider : Option (ResyncRequest → Except String Packet))
      (now : Int)
  | rotateEpoch (epoch : Nat) (entropy : Entropy)
  | deleteStream (observer : Observer) (stream : Stream)
  | deleteObserver (observer : Observer)
  | sweepIdle (now : Int)

def failure {α : Type} : Except HistoryError α → Option HistoryError
  | .ok _ => none
  | .error err => some err

/-- The history after a call, and the call's error. -/
def perform : Call → History J × Option HistoryError
  | .append packet now => (append ops h packet now).map id failure
  | .acknowledge observer stream sequence now =>
    (acknowledge ops h observer stream sequence now).map id failure
  | .acknowledgeEpoch observer stream epoch sequence now =>
    (acknowledgeEpoch ops h observer stream epoch sequence now).map id failure
  | .resync _ => (h, none)
  | .recover request provider now => (recover ops h request provider now).map id (·.2)
  | .rotateEpoch epoch entropy => (rotateEpoch ops h epoch entropy).map id failure
  | .deleteStream observer stream => (deleteStream ops h observer stream).map id failure
  | .deleteObserver observer => (deleteObserver ops h observer).map id failure
  | .sweepIdle now => (sweepIdle ops h now).map id failure

variable {ops : HistoryJournal J}

variable {h h' : History J} {mutation : HistoryMutation} {err : Option String} {key : StreamKey}
  {state : StreamState}

theorem record_eq (hrecord : record ops h mutation = (err, h')) :
    ∃ journal, h' = { h with journal } := by
  unfold record at hrecord
  split at hrecord
  · cases hrecord
    exact ⟨_, rfl⟩
  · cases hrecord
    exact ⟨_, rfl⟩

variable {packet : Packet} {now : Int}

theorem append_result {answer : Except HistoryError Packet}
    (happend : append ops h packet now = (h', answer)) :
    match answer with
    | .error _ => ∃ journal, h' = { h with journal }
    | .ok stored =>
      stored = sequenced h ((h.streams.lookup packet.key).getD {}) packet ∧ h'.epoch = h.epoch ∧
        h'.streams = h.streams.insert packet.key
          (((h.streams.lookup packet.key).getD {}).push h.options.maxPacketsPerStream stored
            now) := by
  unfold append at happend
  split at happend
  · cases happend
    exact ⟨_, rfl⟩
  split at happend
  · cases happend
    exact ⟨_, rfl⟩
  split at happend
  · cases happend
    exact ⟨_, rfl⟩
  dsimp only at happend
  split at happend
  · cases happend
    exact ⟨_, rfl⟩
  split at happend
  · rename_i hrecord
    cases happend
    exact record_eq hrecord
  rename_i hrecord
  obtain ⟨_, rfl⟩ := record_eq hrecord
  cases happend
  exact ⟨rfl, rfl, rfl⟩

/-- The epoch stays, and a stream that is still there has its `latest` and an end of its packets. -/
structure Shrinks (h h' : History J) : Prop where
  epoch : h'.epoch = h.epoch
  streams : ∀ {key state'}, h'.streams.lookup key = some state' →
    ∃ state, h.streams.lookup key = some state ∧ state'.latest = state.latest ∧
      state'.items <:+ state.items

theorem Shrinks.of_lookup (hepoch : h'.epoch = h.epoch)
    (hstreams : ∀ {key state}, h'.streams.lookup key = some state →
      h.streams.lookup key = some state) : Shrinks h h' :=
  ⟨hepoch, fun hlookup => ⟨_, hstreams hlookup, rfl, List.suffix_refl _⟩⟩

theorem Shrinks.refl (h : History J) : Shrinks h h := .of_lookup rfl id

theorem shrinks_record (hrecord : record ops h mutation = (err, h')) :
    Shrinks h h' := by
  obtain ⟨_, rfl⟩ := record_eq hrecord
  exact .of_lookup rfl id

variable {streams : AList fun _ : StreamKey => StreamState}

theorem lookup_of_lookup_erase {key' : StreamKey}
    (h : (streams.erase key').lookup key = some state) : streams.lookup key = some state := by
  rcases eq_or_ne key key' with rfl | hne
  · rw [AList.lookup_erase] at h
    cases h
  · rwa [AList.lookup_erase_ne hne] at h

theorem lookup_of_lookup_eraseAll {keys : List StreamKey}
    (h : (eraseAll streams keys).lookup key = some state) : streams.lookup key = some state := by
  induction keys generalizing streams with
  | nil => exact h
  | cons key' keys ih => exact lookup_of_lookup_erase (ih h)

theorem StreamState.acknowledge_items_suffix (state : StreamState) (prune : Bool)
    (sequence : Nat) (now : Int) :
    (state.acknowledge prune sequence now).items <:+ state.items := by
  show (if prune = true then _ else _) <:+ _
  split
  · exact List.dropWhile_suffix _
  · exact List.suffix_refl _

theorem acknowledgeEpoch_result {observer : Observer} {stream : Stream} {epoch : Nat}
    {answer : Except HistoryError Unit} {sequence : Nat}
    (hack : acknowledgeEpoch ops h observer stream epoch sequence now = (h', answer)) :
    match answer with
    | .error _ => Shrinks h h'
    | .ok () => epoch = h.epoch ∧
      (h' = h ∨ ∃ state, h.streams.lookup ⟨observer, stream⟩ = some state ∧
        state.acked < sequence ∧ sequence ≤ state.latest ∧ h'.epoch = h.epoch ∧
        h'.streams = h.streams.insert ⟨observer, stream⟩
          (state.acknowledge h.options.pruneAcknowledged sequence now)) := by
  unfold acknowledgeEpoch at hack
  split at hack
  · cases hack
    exact .refl h
  rename_i hepoch
  have hepoch := not_not.mp hepoch
  split at hack
  · split at hack
    · cases hack
      exact ⟨hepoch, .inl rfl⟩
    · cases hack
      exact .refl h
  rename_i state hstate
  split at hack
  · cases hack
    exact .refl h
  rename_i hlatest
  split_ifs at hack with hacked
  · split at hack
    · rename_i hrecord
      cases hack
      exact shrinks_record hrecord
    rename_i hrecord
    obtain ⟨_, rfl⟩ := record_eq hrecord
    cases hack
    exact ⟨hepoch, .inr ⟨state, hstate, hacked, not_lt.mp hlatest, rfl, rfl⟩⟩
  · cases hack
    exact ⟨hepoch, .inl rfl⟩

section

variable (ops)

theorem shrinks_acknowledgeEpoch (h : History J) (observer : Observer) (stream : Stream)
    (epoch sequence : Nat) (now : Int) :
    Shrinks h (acknowledgeEpoch ops h observer stream epoch sequence now).1 := by
  generalize hack : acknowledgeEpoch ops h observer stream epoch sequence now = result
  rcases result with ⟨h', _ | ⟨⟩⟩
  · exact acknowledgeEpoch_result hack
  obtain ⟨-, rfl | ⟨state, hstate, -, -, hepoch, hstreams⟩⟩ := acknowledgeEpoch_result hack
  · exact .refl _
  refine ⟨hepoch, ?_⟩
  intro key state' hlookup
  rw [hstreams] at hlookup
  rcases eq_or_ne key ⟨observer, stream⟩ with rfl | hne
  · rw [AList.lookup_insert] at hlookup
    cases hlookup
    exact ⟨state, hstate, rfl, state.acknowledge_items_suffix _ _ _⟩
  · rw [AList.lookup_insert_ne hne] at hlookup
    exact ⟨state', hlookup, rfl, List.suffix_refl _⟩

theorem shrinks_deleteStream (h : History J) (observer : Observer) (stream : Stream) :
    Shrinks h (deleteStream ops h observer stream).1 := by
  unfold deleteStream
  split
  · exact .refl h
  split
  · rename_i hrecord
    exact shrinks_record hrecord
  · rename_i hrecord
    obtain ⟨_, rfl⟩ := record_eq hrecord
    exact .of_lookup rfl lookup_of_lookup_erase

theorem shrinks_deleteObserver (h : History J) (observer : Observer) :
    Shrinks h (deleteObserver ops h observer).1 := by
  unfold deleteObserver
  dsimp only
  split
  · exact .refl h
  split
  · rename_i hrecord
    exact shrinks_record hrecord
  · rename_i hrecord
    obtain ⟨_, rfl⟩ := record_eq hrecord
    exact .of_lookup rfl lookup_of_lookup_eraseAll

theorem shrinks_sweepIdle (h : History J) (now : Int) : Shrinks h (sweepIdle ops h now).1 := by
  unfold sweepIdle
  dsimp only
  split
  · exact .refl h
  split
  · exact .refl h
  split
  · rename_i hrecord
    exact shrinks_record hrecord
  · rename_i hrecord
    obtain ⟨_, rfl⟩ := record_eq hrecord
    exact .of_lookup rfl lookup_of_lookup_eraseAll

end

theorem rotated_ne_zero (epoch : Nat) (entropy : Entropy) :
    (if epoch = 0 then newEpoch entropy else epoch) ≠ 0 := by
  split
  · exact newEpoch_ne_zero entropy
  · assumption

theorem rotateEpoch_cases (ops : HistoryJournal J) (h : History J) (epoch : Nat)
    (entropy : Entropy) :
    Shrinks h (rotateEpoch ops h epoch entropy).1 ∨ (rotateEpoch ops h epoch entropy).1.epoch ≠ 0 ∧
        (rotateEpoch ops h epoch entropy).1.streams = ∅ := by
  fun_cases rotateEpoch ops h epoch entropy with
  | case1 => exact .inl (.refl h)
  | case2 _ _ _ _ hrecord => exact .inl (shrinks_record hrecord)
  | case3 => exact .inr ⟨rotated_ne_zero epoch entropy, rfl⟩

theorem resync_replay {request} (hanswer : (resync h request).fullRequired = false) :
    (request.epoch = 0 ∨ request.epoch = h.epoch) ∧
      ∃ state, h.streams.lookup request.key = some state ∧
        (request.afterSequence = state.latest ∧ (resync h request).packets = [] ∨
          ∃ first rest,
            state.items.dropWhile (fun packet => packet.sequence ≤ request.afterSequence) =
              first :: rest ∧ (resync h request).packets = first :: rest ∧
            (first.full = true ∨ first.baseSequence = request.afterSequence)) := by
  revert hanswer
  fun_cases resync h request with
  | case5 hepoch state hstate _ _ hlatest =>
    exact fun _ => ⟨by simpa only [not_and_or, not_not] using hepoch, state, hstate,
      .inl ⟨hlatest, rfl⟩⟩
  | case10 hepoch state hstate _ _ _ first rest hitems _ hbase =>
    have hbase : first.full = true ∨ first.baseSequence = request.afterSequence := by
      simpa only [not_and_or, not_not, Bool.not_eq_false] using hbase
    exact fun _ => ⟨by simpa only [not_and_or, not_not] using hepoch, state, hstate,
      .inr ⟨first, rest, hitems, rfl, hbase⟩⟩
  | _ => exact nofun

end CubeCore.SyncStream
