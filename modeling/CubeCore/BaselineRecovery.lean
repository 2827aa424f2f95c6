import CubeCore.FramePreparation

namespace CubeCore.BaselineRecovery

open Checked ReplicationSnapshot SnapshotDelta FrameCodec Datagrams PublishedSnapshots Option
open CubeCore.ReplicationSession hiding Label next initial
open FramePreparation TransitionSystem

variable (limits : Limits)

theorem avoids_validateComponents (operation : ObjectOperation) (seen : List UInt16)
    (components : List ComponentDelta) :
    Avoids .baselineMismatch (validateComponents limits operation seen components) := by
  induction components generalizing seen with
  | nil => exact avoids_ok ()
  | cons component rest ih =>
    iterate 6 refine .check (.inr (by simp)) fun _ => ?_
    exact ih _

theorem avoids_validateObjects (kind : FrameKind) (seen : List ObjectRef)
    (objects : List ObjectDelta) :
    Avoids .baselineMismatch (validateObjects limits kind seen objects) := by
  induction objects generalizing seen with
  | nil => exact avoids_ok ()
  | cons object rest ih =>
    iterate 7 refine .check (.inr (by simp)) fun _ => ?_
    exact .bind (avoids_validateComponents _ _ _ _) fun _ _ => ih _

theorem avoids_encodeComponents (buffer : List UInt8) (components : List ComponentDelta) :
    Avoids .baselineMismatch (encodeComponents limits buffer components) := by
  induction components generalizing buffer with
  | nil => exact avoids_ok buffer
  | cons component rest ih => exact .check (.inr (by simp)) fun _ => ih _

theorem avoids_encodeObjects (buffer : List UInt8) (objects : List ObjectDelta) :
    Avoids .baselineMismatch (encodeObjects limits buffer objects) := by
  induction objects generalizing buffer with
  | nil => exact avoids_ok buffer
  | cons object rest ih =>
    exact .check (.inr (by simp)) fun _ =>
      .bind (avoids_encodeComponents _ _ _) fun _ _ => ih _

theorem avoids_encodeFrame {frame : DeltaFrame}
    (h : frame.kind = .delta → frame.baseTick ≠ 0 ∧ frame.baseTick < frame.tick) :
    Avoids .baselineMismatch (encodeFrame frame limits) := by
  have hbase : ¬ (frame.kind = .delta ∧ (frame.baseTick = 0 ∨ frame.tick ≤ frame.baseTick)) := by
    rintro ⟨hdelta, hzero | hle⟩
    · exact (h hdelta).1 hzero
    · exact UInt32.not_le.mpr (h hdelta).2 hle
  refine .bind ?_ fun _ _ => .check (.inr (by simp)) fun _ => avoids_encodeObjects _ _ _
  refine .check (.inr (by simp)) fun _ => .check (.inr (by simp)) fun _ =>
    .check (.inr (by simp)) fun _ =>
    .check (.inl hbase) fun _ => .check (.inr (by simp)) fun _ =>
      avoids_validateObjects _ _ _ _

theorem avoids_fragmentFrame (crc : List UInt8 → UInt32) (frame : DeltaFrame) (sequence : UInt32)
    (encoded : List UInt8) (maxDatagram : Int) (limits : Limits) :
    Avoids .baselineMismatch (fragmentFrame crc frame sequence encoded maxDatagram limits) := by
  iterate 4 refine .check (.inr (by simp)) fun _ => ?_
  refine avoids_mapM (fun index => ?_) _
  exact .bind (.check (.inr (by simp)) fun _ => avoids_ok _) fun _ _ =>
    .check (.inr (by simp)) fun _ => avoids_ok _

/-- The snapshot that the next delta would be built on. -/
def baseFor (state : SessionState) (tick : UInt32) : Option Snapshot :=
  if state.forceFull = false ∧ state.ackTick ≠ 0 ∧ state.ackTick < tick then
    state.sent.lookup state.ackTick
  else none

theorem prepare_base {state : SessionState} (tick : UInt32) (h : state.closed = false) :
    ∃ p, (prepare state tick).1 = .ok p ∧ p.base = baseFor state tick := by
  have hprepared := prepared_prepare state tick
  generalize prepare state tick = out at hprepared ⊢
  cases hprepared with
  | refused hclosed => exact absurd (h.symm.trans hclosed) Bool.false_ne_true
  | delta _ hforce hack htick hbase =>
    refine ⟨_, rfl, ?_⟩
    rw [baseFor, if_pos ⟨hforce, hack, htick⟩, hbase]
    rfl
  | missing _ _ _ hbase =>
    refine ⟨_, rfl, ?_⟩
    rw [baseFor, hbase, ite_self]
    rfl
  | full _ hwhy =>
    refine ⟨_, rfl, ?_⟩
    rw [baseFor, if_neg]
    · rfl
    rintro ⟨hforce, hack, htick⟩
    rcases hwhy with hwhy | hwhy | hwhy
    · exact absurd (hforce.symm.trans hwhy) Bool.false_ne_true
    · exact hack hwhy
    · exact UInt32.not_le.mpr htick hwhy

/-- The snapshot is one that a delta to the other may be built on. -/
def SameStream (base latest : Snapshot) : Prop :=
  base.roomID = latest.roomID ∧ base.epoch = latest.epoch ∧
    base.schemaVersion = latest.schemaVersion

theorem buildDelta_mismatch_iff {base : Option Snapshot} {latest : Snapshot}
    (hvalid : latest.validate = .ok ()) (htick : ∀ b ∈ base, b.tick < latest.tick) :
    buildDelta base latest = .error .baselineMismatch ↔
      ∃ b, base = some b ∧ ¬ SameStream b latest := by
  simp only [buildDelta, hvalid, ok_bind]
  cases base with
  | none =>
    constructor
    · rintro ⟨⟩
    · rintro ⟨b, ⟨⟩, -⟩
  | some b =>
    have hlt := htick b rfl
    have hle : ¬ latest.tick ≤ b.tick := UInt32.not_le.mpr hlt
    simp only [some.injEq, exists_eq_left']
    rw [bind_eq_error_of_avoids, rejectIf_eq_error]
    · simp only [SameStream, hle, or_false, and_true]
      tauto
    · exact fun _ _ => avoids_ok _

structure Inv (s : Server) : Prop where
  projector : s.r.projector = .identity
  published : ∀ x ∈ s.published, newSnapshot x.toSnapshotMeta x.objects s.r.limits = .ok x
  latest : ∀ x, getLatest s.r.ring = some x → x ∈ s.published
  ticks : ∀ tick x, s.r.state.sent.lookup tick = some x → x.tick = tick

variable {crc : List UInt8 → UInt32} {limits : Limits} {ringSize maxDatagram : Int}
  {transport : Option Transport} {info : SessionInfo} {s s' : Server} {l : Label}

theorem inv_initial (h : initial limits ringSize maxDatagram .identity transport info s) :
    Inv s := by
  obtain rfl := h
  refine ⟨rfl, nofun, nofun, fun tick x hx => ?_⟩
  simp [newReplicator, newSession] at hx

theorem inv_next (h : Inv s) (hnext : s.next crc l = some s') : Inv s' := by
  cases stepped_next hnext with
  | @published _ _ _ hnew hadd =>
    refine ⟨h.projector, ?_, ?_, h.ticks⟩
    · rw [List.forall_mem_append, List.forall_mem_singleton]
      exact ⟨h.published, newSnapshot_self hnew⟩
    · intro x hx
      rw [(add_eq_ok hadd).1] at hx
      exact List.mem_append_right _ (List.mem_singleton.mpr (some.inj hx).symm)
  | @prepared seen =>
    refine ⟨h.projector, h.published, h.latest, fun tick x hx => ?_⟩
    exact h.ticks tick x ((untouched_prepare s.r.state seen.tick).sent ▸ hx)
  | recorded _ _ hpublished _ hr =>
    refine ⟨hr ▸ h.projector, ?_, ?_, ?_⟩
    · rw [hpublished, hr]
      exact h.published
    · rw [hpublished, hr]
      exact h.latest
    · intro tick x hx
      rw [hr] at hx
      rcases lookup_record hx with ⟨rfl, rfl⟩ | hold
      · rfl
      · exact h.ticks tick x hold
  | other hpublished _ hring hsent hsame =>
    refine ⟨hsame.projector.trans h.projector, ?_, ?_, ?_⟩
    · rw [hpublished, hsame.limits]
      exact h.published
    · rw [hpublished, hring]
      exact h.latest
    · rw [hsent]
      exact h.ticks

theorem inv_reach
    (h : Reach (Server.next crc) (initial limits ringSize maxDatagram .identity transport info)
      anyStep s) : Inv s :=
  h.invariant (fun _ => inv_initial) fun _ _ _ hinv _ => inv_next hinv

theorem Inv.projectAndNormalize {x : Snapshot} (h : Inv s) (projection : ProjectionContext)
    (hx : x ∈ s.published) : s.r.projectAndNormalize projection x = .ok x := by
  have hnew := h.published x hx
  simp only [Replicator.projectAndNormalize, h.projector, Projector.identity, Projector.project,
    bind_eq_ok, exists_unit, rejectIf_eq_ok]
  exact ⟨x, rfl, fun hne => hne rfl, hnew⟩

theorem Inv.tick_of_baseFor {tick : UInt32} {base : Snapshot} (h : Inv s)
    (hbase : baseFor s.r.state tick = some base) : base.tick ≠ 0 ∧ base.tick < tick := by
  unfold baseFor at hbase
  split_ifs at hbase with hcond
  rw [h.ticks _ _ hbase]
  exact ⟨hcond.2.1, hcond.2.2⟩

variable (crc) in
theorem Inv.buildFrame_mismatch_iff {p : Preparation} (h : Inv s) {latest : Snapshot}
    (hlatest : latest ∈ s.published) (hbase : p.base = baseFor s.r.state latest.tick) :
    s.r.buildFrame crc latest p = .error .baselineMismatch ↔
      ∃ base, baseFor s.r.state latest.tick = some base ∧ ¬ SameStream base latest := by
  have hvalid := (newSnapshot_eq_ok (h.published latest hlatest)).2.2.meta_valid
  simp only [Replicator.buildFrame, h.projectAndNormalize _ hlatest, ok_bind, hbase]
  rw [bind_eq_error_of_avoids, buildDelta_mismatch_iff hvalid]
  · exact fun b hb => (h.tick_of_baseFor hb).2
  intro frame hframe
  obtain ⟨hmeta, -, hkind, hbaseTick, -⟩ := buildDelta_eq_ok hframe
  refine .bind (avoids_encodeFrame _ fun hdelta => ?_) fun _ _ =>
    .bind (avoids_fragmentFrame _ _ _ _ _ _) fun _ _ => avoids_ok _
  cases hfor : baseFor s.r.state latest.tick with
  | none => exact absurd (hdelta.symm.trans (hkind.mpr hfor)) (by decide)
  | some =>
    have htick : frame.tick = latest.tick := congrArg SnapshotMeta.tick hmeta
    rw [hbaseTick, hfor, htick]
    exact h.tick_of_baseFor hfor

/-- The mismatch is reported exactly for a base of another room, epoch or schema. Without a base the
frame is full. -/
theorem prepareLatest_mismatch_iff
    (h : Reach (Server.next crc) (initial limits ringSize maxDatagram .identity transport info)
      anyStep s) (hopen : s.r.state.closed = false) :
    ((s.r.prepareLatest crc).1 = .error .baselineMismatch ↔
        ∃ latest base, getLatest s.r.ring = some latest ∧
          baseFor s.r.state latest.tick = some base ∧ ¬ SameStream base latest) ∧
      ∀ f, (s.r.prepareLatest crc).1 = .ok f → ∃ latest, getLatest s.r.ring = some latest ∧
        (f.frame.kind = .full ↔
          ¬ ∃ base, baseFor s.r.state latest.tick = some base ∧ SameStream base latest) := by
  have hinv := inv_reach h
  unfold Replicator.prepareLatest
  cases hlatest : getLatest s.r.ring with
  | none =>
    refine ⟨⟨nofun, nofun⟩, nofun⟩
  | some latest =>
    have hmem := hinv.latest latest hlatest
    obtain ⟨p, hp, hbase⟩ := prepare_base latest.tick hopen
    have hmismatch := hinv.buildFrame_mismatch_iff crc hmem hbase
    simp only [Replicator.prepareFrom, hp, ok_bind, some.injEq, exists_eq_left', exists_and_left]
    refine ⟨hmismatch, fun f hf => ?_⟩
    rw [kind_of_buildFrame hf, hbase]
    constructor
    · rintro hnone ⟨base, hsome, -⟩
      rw [hnone] at hsome
      cases hsome
    intro hnot
    by_contra hne
    obtain ⟨base, hsome⟩ := ne_none_iff_exists'.mp hne
    have herror := hmismatch.mpr ⟨base, hsome, fun hsame => hnot ⟨base, hsome, hsame⟩⟩
    rw [hf] at herror
    cases herror

def emptyRoom (roomID : UInt64) (tick : UInt32) : Snapshot :=
  ⟨⟨roomID, 1, tick, 1⟩, []⟩

def oneSession : Server :=
  ⟨newReplicator defaultLimits 0 0 .identity none ⟨1, 0, 0, 0⟩, [], []⟩

def errorOf : Except ReplicationError PreparedFrame → Option ReplicationError
  | .ok _ => none
  | .error e => some e

theorem errorOf_eq_some {out : Except ReplicationError PreparedFrame} {e : ReplicationError}
    (h : errorOf out = some e) : out = .error e := by
  cases out with
  | error => exact congrArg _ (some.inj h)
  | ok => cases h

theorem prepareLatest_mismatch_iff_same_room :
    ∃ s, Reach (Server.next fun _ => 0)
        (initial defaultLimits 0 0 .identity none ⟨1, 0, 0, 0⟩) anyStep s ∧
      s.r.state.closed = false ∧
      (∃ f, (s.r.prepareLatest fun _ => 0).1 = .ok f ∧ f.frame.kind = .delta) ∧
      ¬ ∃ latest base, getLatest s.r.ring = some latest ∧
          baseFor s.r.state latest.tick = some base ∧ ¬ SameStream base latest := by
  refine exists_reach_imp (P := fun s => s.r.state.closed = false ∧
      kindOf (s.r.prepareLatest fun _ => 0).1 = some .delta)
    (exists_of_anyRun (s := oneSession) rfl
      [.publish (emptyRoom 1 1), .prepare (emptyRoom 1 1), .commit 0,
        .acknowledge 1 (emptyRoom 1 1), .publish (emptyRoom 1 2)] (by decide +kernel)) ?_
  rintro s hreach ⟨hopen, hkind⟩
  obtain ⟨f, hf, hdelta⟩ := kindOf_eq_some hkind
  refine ⟨hopen, ⟨f, hf, hdelta⟩, ?_⟩
  rw [← (prepareLatest_mismatch_iff hreach hopen).1, hf]
  exact nofun

/-- A snapshot of another room is published after one was acknowledged. -/
theorem other_room_is_refused :
    ∃ s, Reach (Server.next fun _ => 0)
        (initial defaultLimits 0 0 .identity none ⟨1, 0, 0, 0⟩) anyStep s ∧
      s.r.state.closed = false ∧ (s.r.prepareLatest fun _ => 0).1 = .error .baselineMismatch := by
  refine exists_reach_imp (P := fun s => s.r.state.closed = false ∧
      errorOf (s.r.prepareLatest fun _ => 0).1 = some .baselineMismatch)
    (exists_of_anyRun (s := oneSession) rfl
      [.publish (emptyRoom 1 1), .prepare (emptyRoom 1 1), .commit 0,
        .acknowledge 1 (emptyRoom 1 1), .publish (emptyRoom 2 2)] (by decide +kernel)) ?_
  rintro s hreach ⟨hopen, herror⟩
  exact ⟨hopen, errorOf_eq_some herror⟩

end CubeCore.BaselineRecovery
