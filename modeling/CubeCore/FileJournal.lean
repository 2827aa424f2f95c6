import Mathlib.Data.List.Sort
import CubeCore.SyncStream

namespace CubeCore.FileJournal

open SyncStream

def exportStream (key : StreamKey) (state : StreamState) : HistoryStreamSnapshot where
  observer := key.observer
  stream := key.stream
  latest := state.latest
  acked := state.acked
  dropped := state.dropped
  pruned := state.pruned
  schema := state.schema
  lastActivityUnixNano := state.activity
  packets := state.items

/-- The order of the streams in an export. -/
def less (a b : HistoryStreamSnapshot) : Bool :=
  if a.observer.scope ≠ b.observer.scope then a.observer.scope < b.observer.scope
  else if a.observer.kind ≠ b.observer.kind then a.observer.kind < b.observer.kind
  else if a.observer.id ≠ b.observer.id then a.observer.id < b.observer.id
  else if a.observer.session ≠ b.observer.session then a.observer.session < b.observer.session
  else if a.stream.topic ≠ b.stream.topic then a.stream.topic < b.stream.topic
  else a.stream.key < b.stream.key

def exportLocked {J : Type} (h : History J) : HistorySnapshot where
  version := historySnapshotVersion
  epoch := h.epoch
  streams :=
    (h.streams.entries.map fun entry => exportStream entry.1 entry.2).insertionSort
      fun a b => less b a = false

def checkpoint {J : Type} (ops : HistoryJournal J) (h : History J) : History J × Option String :=
  match h.journal with
  | none => (h, some "history journal is required")
  | some journal =>
    let (err, journal) := ops.checkpoint (exportLocked h) journal
    ({ h with journal := some journal }, err)

def invalidSnapshot : String := "syncstream: invalid history snapshot"

def updateFirst (key : StreamKey) (f : HistoryStreamSnapshot → HistoryStreamSnapshot) :
    List HistoryStreamSnapshot → List HistoryStreamSnapshot
  | [] => []
  | item :: rest =>
    if item.key = key then f item :: rest
    else item :: updateFirst key f rest

def findStream (key : StreamKey) (streams : List HistoryStreamSnapshot) :
    Option HistoryStreamSnapshot :=
  streams.find? fun item => item.key = key

def removeFirst (key : StreamKey) (streams : List HistoryStreamSnapshot) :
    List HistoryStreamSnapshot :=
  streams.eraseP fun item => item.key = key

def replayAppend (item : HistoryStreamSnapshot) (packet : Packet) : HistoryStreamSnapshot :=
  { item with
    latest := packet.sequence
    schema := packet.schemaVersion
    packets := item.packets ++ [packet] }

def replayAcknowledge (item : HistoryStreamSnapshot) (prune : Bool) (sequence : Nat) :
    HistoryStreamSnapshot :=
  let packets :=
    if prune then item.packets.dropWhile (fun packet => packet.sequence ≤ sequence)
    else item.packets
  { item with
    acked := sequence
    packets
    pruned := item.pruned + (item.packets.length - packets.length) }

/-- The switch of `replayHistoryMutation`, where the epochs agree. -/
def replayKind (snapshot : HistorySnapshot) (mutation : HistoryMutation) :
    Except String HistorySnapshot :=
  match mutation.kind with
  | .append =>
    let key := mutation.packet.key
    let streams :=
      if (findStream key snapshot.streams).isNone then
        snapshot.streams ++ [{ observer := key.observer, stream := key.stream }]
      else snapshot.streams
    match findStream key streams with
    | none => .error invalidSnapshot
    | some value =>
      if mutation.packet.sequence ≠ value.latest + 1 then .error invalidSnapshot
      else
        .ok
          { snapshot with
            streams := updateFirst key (replayAppend · mutation.packet) streams }
  | .acknowledge =>
    let key := ⟨mutation.observer, mutation.stream⟩
    match findStream key snapshot.streams with
    | none => .error invalidSnapshot
    | some value =>
      if value.latest < mutation.sequence then .error invalidSnapshot
      else if value.acked < mutation.sequence then
        .ok
          { snapshot with
            streams := updateFirst key
              (replayAcknowledge · mutation.pruneAcknowledged mutation.sequence)
              snapshot.streams }
      else .ok snapshot
  | .deleteStream =>
    .ok
      { snapshot with
        streams := removeFirst ⟨mutation.observer, mutation.stream⟩ snapshot.streams }
  | .deleteObserver =>
    .ok
      { snapshot with
        streams := snapshot.streams.filter fun item => item.observer ≠ mutation.observer }
  | .sweepIdle =>
    .ok
      { snapshot with
        streams := mutation.targets.foldl (fun streams key => removeFirst key streams)
          snapshot.streams }
  | .rotateEpoch => .ok { snapshot with epoch := mutation.epoch, streams := [] }

def historyMutationVersion : Nat := 1

def replayHistoryMutation (snapshot : HistorySnapshot) (mutation : HistoryMutation) :
    Except String HistorySnapshot :=
  if mutation.version ≠ historyMutationVersion then .error invalidSnapshot
  else if mutation.kind = .rotateEpoch then
    .ok { snapshot with epoch := mutation.epoch, streams := [] }
  else
    -- the first record of a directory without a checkpoint brings the epoch
    let epoch := if snapshot.epoch = 0 then mutation.epoch else snapshot.epoch
    if mutation.epoch ≠ epoch then .error invalidSnapshot
    else replayKind { snapshot with epoch } mutation

/-- The JSON encoding: without newlines, and a line gives back what was encoded. -/
structure Codec (B : Type) where
  newline : B
  encode : HistoryMutation → List B
  decode : List B → Option HistoryMutation
  newline_notMem : ∀ mutation, newline ∉ encode mutation
  decode_encode : ∀ mutation, decode (encode mutation ++ [newline]) = some mutation

variable {B : Type}

/-- The loop of `replayWAL`; `line` has the bytes since the last newline. -/
def replayBytes [DecidableEq B] (codec : Codec B) (snapshot : HistorySnapshot) (line : List B) :
    List B → Except String HistorySnapshot
  | [] => .ok snapshot
  | byte :: rest =>
    if byte = codec.newline then
      match codec.decode (line ++ [byte]) with
      | none => .error "syncstream: decode WAL"
      | some mutation =>
        match replayHistoryMutation snapshot mutation with
        | .error err => .error err
        | .ok snapshot => replayBytes codec snapshot [] rest
    else replayBytes codec snapshot (line ++ [byte]) rest

def replayWAL [DecidableEq B] (codec : Codec B) (snapshot : HistorySnapshot) (bytes : List B) :
    Except String HistorySnapshot :=
  replayBytes codec snapshot [] bytes

structure FileCheckpoint where
  generation : Nat
  snapshot : HistorySnapshot

structure Directory (B : Type) where
  checkpoints : AList fun _ : Nat => FileCheckpoint
  wals : AList fun _ : Nat => List B

/-- The next write completes; the WAL cannot be opened; an append stops before the newline or fails
after it; a checkpoint stops after some of its steps, or cannot remove the obsolete files. -/
inductive Fault where
  | none
  | unopened
  | tear (written : Nat)
  | late
  | stop (steps : Nat)
  | keep (checkpoint wal : Bool)
deriving DecidableEq

/-- `attempts` is ghost data: the mutations recorded, and whether `Record` returned nil. -/
structure FileHistoryJournal (B : Type) where
  directory : Directory B
  initialEpoch : Nat
  generation : Nat
  fault : Fault
  attempts : List (HistoryMutation × Bool)

variable (directory : Directory B)

/-- `NewFileHistoryJournal` on a directory. -/
def newFileHistoryJournal (initialEpoch : Nat) (entropy : Entropy)
    (attempts : List (HistoryMutation × Bool)) : FileHistoryJournal B where
  directory
  initialEpoch := if initialEpoch = 0 then newEpoch entropy else initialEpoch
  generation := 1
  fault := .none
  attempts

def newest : Option Nat :=
  (directory.checkpoints.keys.filter (0 < ·)).max?

def loadGeneration [DecidableEq B] (codec : Codec B) (directory : Directory B)
    (generation : Nat) : Except String HistorySnapshot :=
  match directory.checkpoints.lookup generation with
  | none => .error "file does not exist"
  | some checkpoint =>
    if checkpoint.generation ≠ generation then .error invalidSnapshot
    else
      match directory.wals.lookup generation with
      | none => .error "syncstream: WAL generation missing"
      | some bytes => replayWAL codec checkpoint.snapshot bytes

def load [DecidableEq B] (codec : Codec B) (journal : FileHistoryJournal B) :
    Except String HistorySnapshot × FileHistoryJournal B :=
  match newest journal.directory with
  | none =>
    let journal := { journal with generation := 1 }
    match journal.directory.wals.lookup 1 with
    | none => (.ok ⟨historySnapshotVersion, journal.initialEpoch, []⟩, journal)
    | some bytes =>
      let epoch := if 0 < bytes.length then 0 else journal.initialEpoch
      (replayWAL codec ⟨historySnapshotVersion, epoch, []⟩ bytes, journal)
  | some generation =>
    match loadGeneration codec journal.directory generation with
    | .error err => (.error err, journal)
    | .ok snapshot => (.ok snapshot, { journal with generation })

variable (generation : Nat)

def Directory.wal : List B :=
  (directory.wals.lookup generation).getD []

/-- `O_CREATE|O_APPEND`. -/
def Directory.appendWal (data : List B) : Directory B :=
  { directory with
    wals := directory.wals.insert generation (directory.wal generation ++ data) }

def line (codec : Codec B) (mutation : HistoryMutation) : List B :=
  codec.encode mutation ++ [codec.newline]

def record (codec : Codec B) (mutation : HistoryMutation) (journal : FileHistoryJournal B) :
    Option String × FileHistoryJournal B :=
  let appended := fun data => journal.directory.appendWal journal.generation data
  if mutation.version ≠ historyMutationVersion then (some invalidSnapshot, journal)
  else
    match journal.fault with
    | .unopened =>
      (some "open", { journal with attempts := journal.attempts ++ [(mutation, false)] })
    | .tear written =>
      (some "write",
        { journal with
          directory := appended ((codec.encode mutation).take written)
          attempts := journal.attempts ++ [(mutation, false)] })
    | .late =>
      (some "sync",
        { journal with
          directory := appended (line codec mutation)
          attempts := journal.attempts ++ [(mutation, false)] })
    | _ =>
      (none,
        { journal with
          directory := appended (line codec mutation)
          attempts := journal.attempts ++ [(mutation, true)] })

def Directory.createWal : Directory B :=
  { directory with wals := directory.wals.insert generation [] }

def Directory.removeWal : Directory B :=
  { directory with wals := directory.wals.erase generation }

def Directory.removeCheckpoint : Directory B :=
  { directory with checkpoints := directory.checkpoints.erase generation }

variable (snapshot : HistorySnapshot)

def Directory.publish : Directory B :=
  { directory.createWal generation with
    checkpoints := directory.checkpoints.insert generation ⟨generation, snapshot⟩ }

/-- `removeObsoleteGenerations`, where either removal can fail unnoticed. -/
def Directory.removeObsolete (current : Nat) (checkpoint wal : Bool) : Directory B :=
  if current ≤ 2 then directory
  else
    let directory :=
      if checkpoint then directory.removeCheckpoint (current - 2) else directory
    if wal then directory.removeWal (current - 2) else directory

/-- After the first steps of a checkpoint: an orphaned WAL is removed, the WAL created, the
checkpoint renamed into place, the obsolete files removed. -/
def Directory.checkpointSteps : Nat → Directory B
  | 0 => directory
  | 1 => directory.removeWal generation
  | 2 => directory.createWal generation
  | 3 => directory.publish generation snapshot
  | 4 => (directory.publish generation snapshot).removeObsolete generation true false
  | _ => (directory.publish generation snapshot).removeObsolete generation true true

def fileCheckpoint (journal : FileHistoryJournal B) :
    Option String × FileHistoryJournal B :=
  let next := journal.generation + 1
  match journal.fault with
  | .stop steps =>
    (some "checkpoint",
      { journal with directory := journal.directory.checkpointSteps next snapshot steps })
  | .keep checkpoint wal =>
    (none,
      { journal with
        directory :=
          (journal.directory.publish next snapshot).removeObsolete next (!checkpoint) (!wal)
        generation := next })
  | _ =>
    (none,
      { journal with
        directory := (journal.directory.publish next snapshot).removeObsolete next true true
        generation := next })

def fileJournal [DecidableEq B] (codec : Codec B) : HistoryJournal (FileHistoryJournal B) where
  load := load codec
  record := record codec
  checkpoint := fileCheckpoint

end CubeCore.FileJournal
