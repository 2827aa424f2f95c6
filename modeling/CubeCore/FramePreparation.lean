import CubeCore.Datagrams
import CubeCore.PublishedSnapshots
import CubeCore.ReplicationSession

namespace CubeCore.FramePreparation

open Checked ReplicationSnapshot SnapshotDelta FrameCodec Datagrams ReplicationSession Option
open PublishedSnapshots

/-- The context of a projection. `Current` is left out: the replicator does not set it. -/
structure ProjectionContext where
  session : SessionInfo
  qualityTier : UInt8
  previous : Option Snapshot
  fullRefresh : Bool

/-- A `Projector`, or a `ContextProjector`, which is preferred where there is one. -/
inductive Projector where
  | plain (project : SessionInfo → Snapshot → Except ReplicationError Snapshot)
  | contextual (project : ProjectionContext → Snapshot → Except ReplicationError Snapshot)

/-- `ProjectorFunc(nil)`. -/
def Projector.identity : Projector :=
  .plain fun _ snapshot => .ok snapshot

def Projector.project (projector : Projector) (projection : ProjectionContext)
    (snapshot : Snapshot) : Except ReplicationError Snapshot :=
  match projector with
  | .plain project => project projection.session snapshot
  | .contextual project => project projection snapshot

/-- What `sameTransport` compares of a transport. -/
structure Transport where
  type : Nat
  comparable : Bool
  value : Nat
deriving DecidableEq

def sameTransport : Option Transport → Option Transport → Bool
  | some left, some right =>
    left.type = right.type ∧ left.comparable = true ∧ left.value = right.value
  | none, none => true
  | _, _ => false

structure Replicator where
  limits : Limits
  maxDatagram : Int
  ring : SnapshotRing
  projector : Projector
  transport : Option Transport
  state : SessionState

/-- `NewReplicator`, with a session that has been registered. -/
def newReplicator (limits : Limits) (ringSize maxDatagram : Int) (projector : Projector)
    (transport : Option Transport) (info : SessionInfo) : Replicator where
  limits := normalizeLimits limits
  maxDatagram := orDefault maxDatagram 1200
  ring := newSnapshotRing (orDefault ringSize 64)
  projector := projector
  transport := transport
  state := newSession info

structure PreparedFrame extends Pending where
  frame : DeltaFrame
  datagrams : List (List UInt8)

namespace Replicator

/-- `Publish`. The snapshot that was put into the ring is returned too. -/
def publish (r : Replicator) (snapshot : Snapshot) :
    Except ReplicationError (Snapshot × Replicator) := do
  let normalized ← newSnapshot snapshot.toSnapshotMeta snapshot.objects r.limits
  let ring ← add r.ring normalized
  return (normalized, { r with ring })

def projectAndNormalize (r : Replicator) (projection : ProjectionContext) (snapshot : Snapshot) :
    Except ReplicationError Snapshot := do
  let projected ← r.projector.project projection snapshot
  rejectIf (projected.toSnapshotMeta ≠ snapshot.toSnapshotMeta)
    (.invalidFrame "projector changed snapshot metadata")
  newSnapshot projected.toSnapshotMeta projected.objects r.limits

variable (crc : List UInt8 → UInt32)

/-- The part of `prepareLatest` behind `state.prepare`. -/
def buildFrame (r : Replicator) (current : Snapshot) (p : Preparation) :
    Except ReplicationError PreparedFrame := do
  let current ← r.projectAndNormalize
    { session := p.info
      qualityTier := p.qualityTier
      previous := p.previous
      fullRefresh := p.fullRefresh } current
  let frame ← buildDelta p.base current
  let encoded ← encodeFrame frame r.limits
  let datagrams ← fragmentFrame crc frame p.sequence encoded r.maxDatagram r.limits
  return {
    snapshot := current
    sequence := p.sequence
    generation := p.generation
    full := frame.kind = .full
    outcome := none
    frame
    datagrams }

/-- The part of `prepareLatest` behind `ring.Latest`. -/
def prepareFrom (r : Replicator) (current : Snapshot) :
    Except ReplicationError PreparedFrame × Replicator :=
  let out := prepare r.state current.tick
  (out.1 >>= r.buildFrame crc current, { r with state := out.2 })

def prepareLatest (r : Replicator) : Except ReplicationError PreparedFrame × Replicator :=
  match getLatest r.ring with
  | none => (.error .snapshotNotFound, r)
  | some current => r.prepareFrom crc current

end Replicator

def reasonCode : ResyncReason → UInt8
  | .unknown => 0
  | .baselineMissing => 1
  | .reassemblyExpired => 2
  | .decodeFailure => 3
  | .schemaMismatch => 4
  | .undefined code => code

def validateControl (message : ControlMessage) : Except ReplicationError Unit := do
  rejectIf (message.type ≠ .ack ∧ message.type ≠ .resync ∨ message.roomID = 0 ∨
    message.epoch = 0 ∨ message.sequence = 0) .invalidControl
  rejectIf (message.type = .ack ∧ (message.tick = 0 ∨ message.reason ≠ .unknown))
    .invalidControl
  rejectIf (message.type = .resync ∧ reasonCode .schemaMismatch < reasonCode message.reason)
    .invalidControl

/-- The checks of `HandleControl` against the latest snapshot. -/
def checkControl (message : ControlMessage) (latest : Snapshot) : Except ReplicationError Unit := do
  validateControl message
  rejectIf (message.roomID ≠ latest.roomID ∨ message.epoch ≠ latest.epoch) .invalidControl

namespace Replicator

/-- `HandleControl` behind its reading of the ring. -/
def handleControl (r : Replicator) (message : ControlMessage) (latest : Snapshot) :
    Except ReplicationError Unit × Replicator :=
  match checkControl message latest with
  | .error e => (.error e, r)
  | .ok _ =>
    let out := ReplicationSession.handleControl r.state message latest.tick
    (out.1, { r with state := out.2 })

/-- `registration` is the result of registering the sessions with the new transport. -/
def setTransport (r : Replicator) (transport : Option Transport)
    (registration : Except ReplicationError Unit) : Except ReplicationError Unit × Replicator :=
  if sameTransport r.transport transport then (.ok (), r)
  else
    match registration with
    | .error e => (.error e, r)
    | .ok _ => (.ok (), { r with transport, state := forceFull r.state })

end Replicator

/-- A replicator with the frames that were prepared and the snapshots that were published. -/
structure Server where
  r : Replicator
  frames : List PreparedFrame
  published : List Snapshot

/-- A call reads the ring before it locks the session; `seen` is what it has read, perhaps not the
latest any more. -/
inductive Label where
  | publish (snapshot : Snapshot)
  | prepare (seen : Snapshot)
  | commit (i : Nat)
  | abort (i : Nat)
  | acknowledge (tick : UInt32) (seen : Snapshot)
  | handleControl (message : ControlMessage) (seen : Snapshot)
  | forceFull
  | setQualityTier (tier : UInt8)
  | setTransport (transport : Option Transport) (registration : Except ReplicationError Unit)

namespace Server

def withState (s : Server) (state : SessionState) : Server :=
  { s with r := { s.r with state } }

variable (crc : List UInt8 → UInt32)

def next (s : Server) : Label → Option Server
  | .publish snapshot =>
    match s.r.publish snapshot with
    | .error _ => some s
    | .ok (normalized, r) => some { s with r, published := s.published ++ [normalized] }
  | .prepare seen =>
    if seen ∈ s.published then
      let out := s.r.prepareFrom crc seen
      match out.1 with
      | .error _ => some { s with r := out.2 }
      | .ok p => some { s with r := out.2, frames := s.frames ++ [p] }
    else none
  | .commit i => do
      let p ← s.frames[i]?
      let out := p.toPending.commit s.r.state
      return { s.withState out.2.2 with frames := s.frames.set i { p with toPending := out.2.1 } }
  | .abort i => do
      let p ← s.frames[i]?
      return { s with frames := s.frames.set i { p with toPending := p.toPending.abort } }
  | .acknowledge tick seen =>
    if seen ∈ s.published then
      some (s.withState (acknowledge s.r.state tick seen.tick).2)
    else none
  | .handleControl message seen =>
    if seen ∈ s.published then some { s with r := (s.r.handleControl message seen).2 }
    else none
  | .forceFull => some (s.withState (forceFull s.r.state))
  | .setQualityTier tier => some (s.withState (setQualityTier s.r.state tier).2)
  | .setTransport transport registration =>
    some { s with r := (s.r.setTransport transport registration).2 }

end Server

def initial (limits : Limits) (ringSize maxDatagram : Int) (projector : Projector)
    (transport : Option Transport) (info : SessionInfo) (s : Server) : Prop :=
  s = ⟨newReplicator limits ringSize maxDatagram projector transport info, [], []⟩

variable {crc : List UInt8 → UInt32} {r : Replicator} {s s' : Server}

variable {current : Snapshot} {f : PreparedFrame}

theorem buildFrame_eq_ok (h : r.buildFrame crc current p = .ok f) :
    f.snapshot.toSnapshotMeta = current.toSnapshotMeta ∧ f.snapshot.Normal ∧
      buildDelta p.base f.snapshot = .ok f.frame ∧ f.generation = p.generation ∧
      f.sequence = p.sequence ∧ f.full = decide (f.frame.kind = .full) ∧ f.outcome = none := by
  simp only [Replicator.buildFrame, Replicator.projectAndNormalize, bind_eq_ok, exists_unit,
    rejectIf_eq_ok, pure_eq_ok] at h
  obtain ⟨projected, ⟨found, -, hmeta, hnew⟩, frame, hframe, encoded, -, datagrams, -, rfl⟩ := h
  obtain ⟨hsame, -, hnormal⟩ := newSnapshot_eq_ok hnew
  exact ⟨hsame.trans (not_not.mp hmeta), hnormal, hframe, rfl, rfl, rfl, rfl⟩

theorem publish_eq_ok (h : r.publish snapshot = .ok (normalized, r')) :
    newSnapshot snapshot.toSnapshotMeta snapshot.objects r.limits = .ok normalized ∧
      ∃ ring, add r.ring normalized = .ok ring ∧ r' = { r with ring } := by
  simp only [Replicator.publish, bind_eq_ok, pure_eq_ok, Prod.mk.injEq] at h
  obtain ⟨normalized', hnew, ring, hadd, rfl, rfl⟩ := h
  exact ⟨hnew, ring, hadd, rfl⟩

theorem prepareFrom_eq_ok (h : (r.prepareFrom crc current).1 = .ok f) :
    ∃ p, (prepare r.state current.tick).1 = .ok p ∧ r.buildFrame crc current p = .ok f :=
  bind_eq_ok.mp h

def kindOf : Except ReplicationError PreparedFrame → Option FrameKind
  | .ok f => some f.frame.kind
  | .error _ => none

theorem kindOf_eq_some (h : kindOf out = some kind) : ∃ f, out = .ok f ∧ f.frame.kind = kind := by
  cases out with
  | error => cases h
  | ok f => exact ⟨f, rfl, some.inj h⟩

theorem kind_of_buildFrame (h : r.buildFrame crc current p = .ok f) :
    f.frame.kind = .full ↔ p.base = none :=
  (buildDelta_eq_ok (buildFrame_eq_ok h).2.2.1).2.2.1

theorem next_prepare (h : s.next crc (.prepare seen) = some s') :
    seen ∈ s.published ∧
      (s' = s.withState (prepare s.r.state seen.tick).2 ∨
        ∃ p f, (prepare s.r.state seen.tick).1 = .ok p ∧ s.r.buildFrame crc seen p = .ok f ∧
          s' = { s.withState (prepare s.r.state seen.tick).2 with frames := s.frames ++ [f] }) := by
  simp only [Server.next] at h
  split_ifs at h with hseen
  refine ⟨hseen, ?_⟩
  split at h
  · exact .inl (some.inj h).symm
  · rename_i f hf
    obtain ⟨p, hp, hbuild⟩ := prepareFrom_eq_ok hf
    exact .inr ⟨p, f, hp, hbuild, (some.inj h).symm⟩

/-- A prepared frame without the decision on it. -/
def PreparedFrame.undecided (p : PreparedFrame) : PreparedFrame :=
  { p with outcome := none }

theorem map_undecided_set {frames : List PreparedFrame} {p q : PreparedFrame}
    (h : frames[i]? = some p) (hsame : q.undecided = p.undecided) :
    (frames.set i q).map PreparedFrame.undecided = frames.map PreparedFrame.undecided := by
  apply List.ext_getElem?
  intro j
  rw [List.map_set, hsame]
  rcases eq_or_ne i j with rfl | hij
  · have hlt := (List.getElem?_eq_some_iff.mp h).1
    rw [List.getElem?_set_self (by simpa using hlt), List.getElem?_map, h]
    rfl
  · rw [List.getElem?_set_ne hij]

theorem undecided_commit (p : PreparedFrame) (state : SessionState) :
    PreparedFrame.undecided { p with toPending := (p.toPending.commit state).2.1 } =
      p.undecided := by
  unfold Pending.commit
  split <;> rfl

theorem undecided_abort (p : PreparedFrame) :
    PreparedFrame.undecided { p with toPending := p.toPending.abort } = p.undecided := by
  unfold Pending.abort
  split <;> rfl

theorem handleControl_cases (r : Replicator) (message : ControlMessage) (seen : Snapshot) :
    (∃ e, r.handleControl message seen = (.error e, r)) ∨
      r.handleControl message seen =
        ((handleControl r.state message seen.tick).1,
          { r with state := (handleControl r.state message seen.tick).2 }) := by
  unfold Replicator.handleControl
  split
  · exact .inl ⟨_, rfl⟩
  · exact .inr rfl

theorem next_commit {i : Nat} (h : s.next crc (.commit i) = some s') :
    ∃ p, s.frames[i]? = some p ∧ s'.published = s.published ∧
      s'.frames.map PreparedFrame.undecided = s.frames.map PreparedFrame.undecided ∧
      s'.r = { s.r with state := (p.toPending.commit s.r.state).2.2 } := by
  obtain ⟨p, hp, heq⟩ := bind_eq_some_iff.mp h
  cases heq
  exact ⟨p, hp, rfl, map_undecided_set hp (undecided_commit p s.r.state), rfl⟩

def succeeds : Except ReplicationError Unit → Bool
  | .ok _ => true
  | .error _ => false

/-- The commit of this frame is accepted. -/
def commits (state : SessionState) (p : Pending) : Bool :=
  p.outcome.isNone &&
    succeeds (commitPrepared state p.snapshot p.sequence p.generation p.full).1

theorem commit_cases (p : Pending) (state : SessionState) :
    (p.commit state).2.2 = state ∨
      p.generation = state.generation ∧ commits state p = true ∧
        (p.commit state).2.2 = record state p.snapshot p.sequence p.full := by
  unfold Pending.commit
  split
  · exact .inl rfl
  rename_i houtcome
  rcases commitPrepared_cases state p.snapshot p.sequence p.generation p.full with
    ⟨e, heq⟩ | ⟨-, hgeneration, -, heq⟩
  · exact .inl (congrArg Prod.snd heq)
  · refine .inr ⟨hgeneration, ?_, congrArg Prod.snd heq⟩
    rw [commits, houtcome, heq]
    rfl

/-- The configuration and the client do not change. -/
structure SameConfig (r r' : Replicator) : Prop where
  info : r'.state.info = r.state.info
  limits : r'.limits = r.limits
  maxDatagram : r'.maxDatagram = r.maxDatagram
  projector : r'.projector = r.projector

/-- What a step does to the snapshots: published, prepared and in the session's history. -/
inductive Stepped (crc : List UInt8 → UInt32) (s : Server) : Label → Server → Prop
  | published {snapshot normalized : Snapshot} {ring : SnapshotRing} :
      newSnapshot snapshot.toSnapshotMeta snapshot.objects s.r.limits = .ok normalized →
      add s.r.ring normalized = .ok ring →
        Stepped crc s (.publish snapshot)
          { s with r := { s.r with ring }, published := s.published ++ [normalized] }
  | prepared {seen : Snapshot} {p : Preparation} {f : PreparedFrame} : seen ∈ s.published →
      (prepare s.r.state seen.tick).1 = .ok p → s.r.buildFrame crc seen p = .ok f →
        Stepped crc s (.prepare seen)
          { s.withState (prepare s.r.state seen.tick).2 with frames := s.frames ++ [f] }
  | recorded {i : Nat} {f : PreparedFrame} {s' : Server} : s.frames[i]? = some f →
      commits s.r.state f.toPending = true → s'.published = s.published →
      s'.frames.map PreparedFrame.undecided = s.frames.map PreparedFrame.undecided →
      s'.r = { s.r with state := record s.r.state f.snapshot f.sequence f.full } →
        Stepped crc s (.commit i) s'
  | other {l : Label} {s' : Server} : s'.published = s.published →
      s'.frames.map PreparedFrame.undecided = s.frames.map PreparedFrame.undecided →
      s'.r.ring = s.r.ring → s'.r.state.sent = s.r.state.sent → SameConfig s.r s'.r →
        Stepped crc s l s'

theorem Stepped.state {transport state} (hsent : state.sent = s.r.state.sent)
    (hinfo : state.info = s.r.state.info) :
    Stepped crc s l { s with r := { s.r with transport, state } } :=
  .other rfl rfl rfl hsent ⟨hinfo, rfl, rfl, rfl⟩

theorem stepped_next {l : Label} (h : s.next crc l = some s') : Stepped crc s l s' := by
  cases l with
  | publish =>
    simp only [Server.next] at h
    split at h <;> obtain rfl := some.inj h
    · exact .state rfl rfl
    · rename_i hpublish
      obtain ⟨hnew, ring, hadd, rfl⟩ := publish_eq_ok hpublish
      exact .published hnew hadd
  | prepare seen =>
    obtain ⟨hseen, rfl | ⟨p, f, hp, hf, rfl⟩⟩ := next_prepare h
    · have hsame := untouched_prepare s.r.state seen.tick
      exact .state hsame.sent hsame.info
    · exact .prepared hseen hp hf
  | commit =>
    obtain ⟨f, hf, hpublished, hframes, hr⟩ := next_commit h
    rcases commit_cases f.toPending s.r.state with heq | ⟨-, hcommits, heq⟩
    · have hr : s'.r = s.r := by rw [hr, heq]
      exact .other hpublished hframes (congrArg Replicator.ring hr) (by rw [hr])
        (hr ▸ ⟨rfl, rfl, rfl, rfl⟩)
    · rw [heq] at hr
      exact .recorded hf hcommits hpublished hframes hr
  | abort =>
    obtain ⟨p, hp, heq⟩ := bind_eq_some_iff.mp h
    cases heq
    exact .other rfl (map_undecided_set hp (undecided_abort p)) rfl rfl ⟨rfl, rfl, rfl, rfl⟩
  | acknowledge tick seen =>
    simp only [Server.next] at h
    split_ifs at h
    cases h
    exact .state (acknowledge_sent ..) (changed_acknowledge ..).info
  | handleControl message seen =>
    simp only [Server.next] at h
    split_ifs at h
    cases h
    rcases handleControl_cases s.r message seen with ⟨e, heq⟩ | heq <;> rw [heq]
    · exact .state rfl rfl
    · exact .state (handleControl_sent ..) (changed_handleControl ..).info
  | forceFull =>
    cases h
    exact .state (untouched_forceFull _).sent (untouched_forceFull _).info
  | setQualityTier tier =>
    cases h
    exact .state (untouched_setQualityTier ..).sent (untouched_setQualityTier ..).info
  | setTransport =>
    cases h
    unfold Replicator.setTransport
    split
    · exact .state rfl rfl
    split
    · exact .state rfl rfl
    · exact .state (untouched_forceFull _).sent (untouched_forceFull _).info

theorem sameConfig_next (h : s.next crc l = some s') : SameConfig s.r s'.r := by
  cases stepped_next h with
  | published => exact ⟨rfl, rfl, rfl, rfl⟩
  | @prepared seen =>
    exact ⟨(untouched_prepare s.r.state seen.tick).info, rfl, rfl, rfl⟩
  | recorded _ _ _ _ hr => exact hr ▸ ⟨rfl, rfl, rfl, rfl⟩
  | other _ _ _ _ hsame => exact hsame

/-- A frame that is handed out can be read: its chunks, put together, are decoded to it. -/
theorem prepared_decodes (h32 : (normalizeLimits r.limits).maxComponentBytes < 2 ^ 32)
    (hf : (r.prepareFrom crc current).1 = .ok f) :
    ∃ encoded size, Cut crc f.frame f.sequence encoded r.limits f.datagrams size ∧
      decodeFrame encoded r.limits = .ok f.frame := by
  obtain ⟨p, -, hbuild⟩ := prepareFrom_eq_ok hf
  simp only [Replicator.buildFrame, bind_eq_ok, pure_eq_ok] at hbuild
  obtain ⟨_, _, frame, _, encoded, hencode, _, hfragment, rfl⟩ := hbuild
  obtain ⟨size, hcut⟩ := fragmentFrame_cut hfragment
  simp only [encodeFrame, bind_eq_ok, exists_unit, rejectIf_eq_ok, not_lt] at hencode
  obtain ⟨hvalidate, hcount, hobjects⟩ := hencode
  obtain ⟨hdata, hcounts⟩ := encodeObjects_eq_ok hobjects
  exact ⟨encoded, size, hcut, decodeFrame_eq_ok_iff.mpr
    ⟨hdata, hcut.length_le, .of_validate h32 hvalidate hcount hcounts, hvalidate⟩⟩

theorem prepared_decodes_first :
    ∃ r f encoded, (Replicator.prepareFrom (fun _ => 0) r (oneObject 1 [7])).1 = .ok f ∧
      decodeFrame encoded r.limits = .ok f.frame := by
  let r := newReplicator defaultLimits 0 0 (.plain fun _ => .ok) none ⟨1, 0, 0, 0⟩
  have hok : (r.prepareFrom (fun _ => 0) (oneObject 1 [7])).1.isOk = true := by decide +kernel
  cases hf : (r.prepareFrom (fun _ => 0) (oneObject 1 [7])).1 with
  | error => simp [hf, Except.isOk, Except.toBool] at hok
  | ok f =>
    obtain ⟨encoded, -, -, hdecode⟩ := prepared_decodes (by decide) hf
    exact ⟨r, f, encoded, hf, hdecode⟩

end CubeCore.FramePreparation
