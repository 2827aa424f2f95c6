import CubeCore.FramePreparation

namespace CubeCore.BaselineAgreement

open Checked ReplicationSnapshot SnapshotDelta PublishedSnapshots List Option
open CubeCore.ReplicationSession hiding Label next initial
open CubeCore.FramePreparation hiding initial Label
open TransitionSystem

/-- `wire` are the frames sent, `held` the client's snapshots, `emitted` those of frames sent or
committed. -/
structure World where
  server : Server
  wire : List PreparedFrame
  held : List Snapshot
  emitted : List Snapshot

inductive Label where
  | server (l : FramePreparation.Label)
  | send (i : Nat)
  | receive (i : Nat) (base : Option Snapshot)

/-- The client acknowledges only ticks that it holds. -/
def allowed (w : World) : FramePreparation.Label → Prop
  | .acknowledge tick _ => ∃ x ∈ w.held, x.tick = tick
  | .handleControl message _ => message.type = .ack → ∃ x ∈ w.held, x.tick = message.tick
  | _ => True

instance (w : World) : DecidablePred (allowed w)
  | .acknowledge _ _ => inferInstanceAs (Decidable (∃ x ∈ w.held, _))
  | .handleControl _ _ => inferInstanceAs (Decidable (_ → ∃ x ∈ w.held, _))
  | .publish _ | .prepare _ | .commit _ | .abort _ | .forceFull | .setQualityTier _
  | .setTransport _ _ => inferInstanceAs (Decidable True)

/-- The snapshots of the frames sent or committed after a step of the server. -/
def emittedAfter (w : World) : FramePreparation.Label → List Snapshot
  | .commit i =>
    match w.server.frames[i]? with
    | some f =>
      if commits w.server.r.state f.toPending then w.emitted ++ [f.snapshot] else w.emitted
    | none => w.emitted
  | _ => w.emitted

variable (crc : List UInt8 → UInt32) (clientLimits : Limits)

/-- Frames arrive any number of times and in any order; the client applies one to what it holds for
its base tick. -/
def next (w : World) : Label → Option World
  | .server l =>
    if allowed w l then
      (w.server.next crc l).map fun server => { w with server, emitted := emittedAfter w l }
    else none
  | .send i => do
      let f ← w.server.frames[i]?
      return { w with wire := w.wire ++ [f], emitted := w.emitted ++ [f.snapshot] }
  | .receive i base => do
      let f ← w.wire[i]?
      if ∀ x ∈ base, x ∈ w.held ∧ x.tick = f.frame.baseTick then
        match applyDelta base f.frame clientLimits with
        | .ok x => some { w with held := w.held ++ [x] }
        | .error _ => some w
      else none

def initial (limits : Limits) (ringSize maxDatagram : Int) (projector : Projector)
    (transport : Option Transport) (info : SessionInfo) (w : World) : Prop :=
  FramePreparation.initial limits ringSize maxDatagram projector transport info w.server ∧
    w.wire = [] ∧ w.held = [] ∧ w.emitted = []

/-- The frames of the snapshot's tick that were sent or committed carry this snapshot. -/
def Agrees (emitted : List Snapshot) (x : Snapshot) : Prop :=
  ∀ y ∈ emitted, y.tick = x.tick → y = x

/-- Frames of one tick that are sent or committed carry the same projection. -/
def oneProjection (w : World) : Label → Prop
  | .send i => ∀ f ∈ w.server.frames[i]?, Agrees w.emitted f.snapshot
  | .server (.commit i) => ∀ f ∈ w.server.frames[i]?,
      commits w.server.r.state f.toPending = true → Agrees w.emitted f.snapshot
  | _ => True

instance (emitted : List Snapshot) (x : Snapshot) : Decidable (Agrees emitted x) :=
  inferInstanceAs (Decidable (∀ y ∈ emitted, _))

instance (w : World) : DecidablePred (oneProjection w)
  | .send _ => inferInstanceAs (Decidable (∀ f ∈ _, _))
  | .server (.commit _) => inferInstanceAs (Decidable (∀ f ∈ _, _ → _))
  | .server (.publish _) | .server (.prepare _) | .server (.abort _) | .server (.acknowledge _ _)
  | .server (.handleControl _ _) | .server .forceFull | .server (.setQualityTier _)
  | .server (.setTransport _ _) | .receive _ _ => inferInstanceAs (Decidable True)

variable {crc clientLimits}

/-- A frame that was built on nothing or on a snapshot that was emitted. -/
structure Built (emitted : List Snapshot) (f : PreparedFrame) : Prop where
  normal : f.snapshot.Normal
  base : ∃ base, buildDelta base f.snapshot = .ok f.frame ∧
    ∀ b ∈ base, b.Normal ∧ b ∈ emitted

variable {f : PreparedFrame}

theorem Built.mono (h : Built emitted f) (hsub : emitted ⊆ emitted') : Built emitted' f := by
  obtain ⟨base, hbuild, hbase⟩ := h.base
  exact ⟨h.normal, base, hbuild, fun b hb => ⟨(hbase b hb).1, hsub (hbase b hb).2⟩⟩

structure Inv (w : World) : Prop where
  frames : ∀ f ∈ w.server.frames.map PreparedFrame.undecided, Built w.emitted f
  sent : ∀ tick x, w.server.r.state.sent.lookup tick = some x →
    x.tick = tick ∧ x.Normal ∧ x ∈ w.emitted
  wire : ∀ f ∈ w.wire, Built w.emitted f ∧ f.snapshot ∈ w.emitted
  held : ∀ x ∈ w.held, x ∈ w.emitted
  emitted : ∀ x ∈ w.emitted, x.Normal
  agree : ∀ x ∈ w.emitted, Agrees w.emitted x

variable {w w' : World}

variable {i : Nat}

theorem Inv.built (h : Inv w) (hf : w.server.frames[i]? = some f) : Built w.emitted f := by
  have hundecided := h.frames f.undecided (mem_map_of_mem (mem_of_getElem? hf))
  exact ⟨hundecided.normal, hundecided.base⟩

theorem Inv.emit (h : Inv w) (hf : w.server.frames[i]? = some f)
    (hagrees : Agrees w.emitted f.snapshot) :
    Inv { w with emitted := w.emitted ++ [f.snapshot] } := by
  have hsub : w.emitted ⊆ w.emitted ++ [f.snapshot] := subset_append_left ..
  refine ⟨fun g hg => (h.frames g hg).mono hsub, ?_, ?_, fun x hx => hsub (h.held x hx), ?_, ?_⟩
  · intro tick x hx
    obtain ⟨htick, hnormal, hmem⟩ := h.sent tick x hx
    exact ⟨htick, hnormal, hsub hmem⟩
  · intro g hg
    obtain ⟨hbuilt, hmem⟩ := h.wire g hg
    exact ⟨hbuilt.mono hsub, hsub hmem⟩
  · rw [forall_mem_append, forall_mem_singleton]
    exact ⟨h.emitted, (h.built hf).normal⟩
  · intro x hx y hy htick
    rcases mem_append.mp hx with hx | hx <;> rcases mem_append.mp hy with hy | hy
    · exact h.agree x hx y hy htick
    · obtain rfl := mem_singleton.mp hy
      exact (hagrees x hx htick.symm).symm
    · obtain rfl := mem_singleton.mp hx
      exact hagrees y hy htick
    · rw [mem_singleton.mp hx, mem_singleton.mp hy]

variable {l : FramePreparation.Label} {server : Server}

theorem Inv.stepped (h : Inv w) (hstep : Stepped crc w.server l server)
    (hrecord : ∀ i f, l = .commit i → w.server.frames[i]? = some f →
      commits w.server.r.state f.toPending = true → f.snapshot ∈ w.emitted) :
    Inv { w with server } := by
  cases hstep with
  | published => exact { h with }
  | @prepared seen p _ _ hp hf =>
    refine { h with frames := ?_, sent := ?_ }
    · intro g hg
      simp only [map_append, mem_append, map_cons, map_nil, mem_singleton] at hg
      rcases hg with hg | rfl
      · exact h.frames g hg
      obtain ⟨-, hnormal, hbuild, -⟩ := buildFrame_eq_ok hf
      refine ⟨hnormal, p.base, hbuild, fun b hb => ?_⟩
      obtain ⟨-, -, -, hlookup⟩ := (prepare_eq_ok hp).2.2 b hb
      exact (h.sent _ b hlookup).2
    · intro tick x hx
      exact h.sent tick x ((untouched_prepare w.server.r.state seen.tick).sent ▸ hx)
  | @recorded i f _ hf hcommits _ hframes hr =>
    refine { h with frames := ?_, sent := ?_ }
    · rw [hframes]
      exact h.frames
    intro tick x hx
    rw [hr] at hx
    rcases lookup_record hx with ⟨rfl, rfl⟩ | hold
    · exact ⟨rfl, (h.built hf).normal, hrecord i f rfl hf hcommits⟩
    · exact h.sent tick x hold
  | other _ hframes _ hsent =>
    refine { h with frames := ?_, sent := ?_ }
    · rw [hframes]
      exact h.frames
    · rw [hsent]
      exact h.sent

variable {x : Snapshot}

theorem Inv.applied (h : Inv w) (hbuilt : Built w.emitted f)
    (hbase : ∀ b ∈ base, b ∈ w.emitted ∧ b.tick = f.frame.baseTick)
    (happly : applyDelta base f.frame limits = .ok x) : x = f.snapshot := by
  obtain ⟨base', hbuild, hbase'⟩ := hbuilt.base
  obtain ⟨-, -, hkind, hbaseTick, hdelta⟩ := buildDelta_eq_ok hbuild
  have hsame : base = base' := by
    cases base' with
    | none =>
      cases base with
      | none => rfl
      | some b =>
        -- a full frame has base tick zero, and no snapshot has that tick
        obtain ⟨hmem, htick⟩ := hbase b rfl
        have hvalid := (h.emitted b hmem).meta_valid
        rw [hbaseTick] at htick
        simp only [SnapshotMeta.validate, rejectIf_eq_ok] at hvalid
        push Not at hvalid
        exact absurd htick hvalid.2.2.1
    | some b' =>
      cases base with
      | none =>
        have hnot : baseObjects none f.frame = .error .baselineMismatch := by
          simp only [baseObjects, (hdelta b' rfl).1]
        simp only [applyDelta, hnot, bind_eq_ok] at happly
        obtain ⟨-, -, objects, herror, -⟩ := happly
        cases herror
      | some b =>
        obtain ⟨hmem, htick⟩ := hbase b rfl
        rw [hbaseTick] at htick
        exact congrArg some (h.agree b' (hbase' b' rfl).2 b hmem htick)
  rw [hsame] at happly
  exact applyDelta_buildDelta (fun b hb => (hbase' b hb).1) hbuilt.normal hbuild happly

theorem inv_server (h : Inv w) (hguard : oneProjection w (.server l))
    (hnext : w.server.next crc l = some server) :
    Inv { w with server, emitted := emittedAfter w l } := by
  have hstep := stepped_next hnext
  by_cases hcommit : ∃ i f, l = .commit i ∧ w.server.frames[i]? = some f ∧
      commits w.server.r.state f.toPending = true
  · obtain ⟨i, f, rfl, hf, hcommits⟩ := hcommit
    have hemitted : emittedAfter w (.commit i) = w.emitted ++ [f.snapshot] := by
      simp only [emittedAfter, hf, hcommits, if_true]
    rw [hemitted]
    refine (h.emit hf (hguard f hf hcommits)).stepped hstep ?_
    rintro j g ⟨⟩ hg _
    obtain rfl := some.inj (hf.symm.trans hg)
    exact mem_append_right _ (mem_singleton.mpr rfl)
  · have hemitted : emittedAfter w l = w.emitted := by
      unfold emittedAfter
      split
      · rename_i i
        split
        · rename_i f hf
          rw [if_neg]
          exact fun hcommits => hcommit ⟨i, f, rfl, hf, hcommits⟩
        · rfl
      · rfl
    rw [hemitted]
    exact h.stepped hstep fun i f hl hf hcommits => absurd ⟨i, f, hl, hf, hcommits⟩ hcommit

theorem inv_next {l : Label} (h : Inv w) (hguard : oneProjection w l)
    (hnext : next crc clientLimits w l = some w') : Inv w' := by
  cases l with
  | server =>
    simp only [next] at hnext
    split_ifs at hnext
    obtain ⟨server, hserver, rfl⟩ := map_eq_some_iff.mp hnext
    exact inv_server h hguard hserver
  | send =>
    obtain ⟨f, hf, heq⟩ := bind_eq_some_iff.mp hnext
    cases heq
    have hemit := h.emit hf (hguard f hf)
    refine { hemit with wire := ?_ }
    rw [forall_mem_append, forall_mem_singleton]
    exact ⟨hemit.wire, hemit.built hf, mem_append_right _ (mem_singleton.mpr rfl)⟩
  | receive =>
    obtain ⟨f, hf, heq⟩ := bind_eq_some_iff.mp hnext
    split_ifs at heq with hbase
    split at heq <;> obtain rfl := some.inj heq
    · rename_i x happly
      obtain ⟨hbuilt, hmem⟩ := h.wire f (mem_of_getElem? hf)
      refine { h with held := ?_ }
      rw [forall_mem_append, forall_mem_singleton]
      have hsame := h.applied hbuilt
        (fun b hb => ⟨h.held b (hbase b hb).1, (hbase b hb).2⟩) happly
      exact ⟨h.held, hsame ▸ hmem⟩
    · exact h

variable {limits : Limits} {ringSize maxDatagram : Int} {projector : Projector}
  {transport : Option Transport} {info : SessionInfo}

theorem inv_reach
    (h : Reach (next crc clientLimits)
      (initial limits ringSize maxDatagram projector transport info) oneProjection w) : Inv w := by
  refine h.invariant ?_ fun _ _ _ => inv_next
  rintro ⟨server, wire, held, emitted⟩ ⟨rfl, rfl, rfl, rfl⟩
  refine ⟨nofun, fun tick x hx => ?_, nofun, nofun, nofun, nofun⟩
  simp [newReplicator, newSession] at hx

/-- If frames of one tick carry one projection, a delta frame is built on what the client holds for
its tick, and gives it the snapshot the frame was made of. -/
theorem baseline_agreement {current : Snapshot} {f : PreparedFrame}
    (h : Reach (next crc clientLimits)
      (initial limits ringSize maxDatagram projector transport info) oneProjection w)
    (hf : (w.server.r.prepareFrom crc current).1 = .ok f) (hdelta : f.frame.kind = .delta) :
    ∃ base, w.server.r.state.sent.lookup f.frame.baseTick = some base ∧
      ∀ x ∈ w.held, x.tick = f.frame.baseTick →
        x = base ∧ ∀ receiver out, applyDelta (some x) f.frame receiver = .ok out →
          out = f.snapshot := by
  have hinv := inv_reach h
  obtain ⟨p, hp, hbuild⟩ := prepareFrom_eq_ok hf
  obtain ⟨-, hnormal, hdeltaOf, -⟩ := buildFrame_eq_ok hbuild
  have hbase : p.base ≠ none := by
    intro hnone
    have hfull := (kind_of_buildFrame hbuild).mpr hnone
    exact absurd (hdelta.symm.trans hfull) nofun
  obtain ⟨base, hbase⟩ := ne_none_iff_exists'.mp hbase
  obtain ⟨-, -, -, hlookup⟩ := (prepare_eq_ok hp).2.2 base hbase
  obtain ⟨htick, hbaseNormal, hmem⟩ := hinv.sent _ base hlookup
  obtain ⟨-, -, -, hbaseTick, -⟩ := buildDelta_eq_ok hdeltaOf
  rw [hbase] at hbaseTick
  have hbaseTick : f.frame.baseTick = base.tick := hbaseTick
  refine ⟨base, ?_, fun x hx hxtick => ?_⟩
  · rwa [hbaseTick, htick]
  have hsame : x = base := hinv.agree base hmem x (hinv.held x hx) (hxtick.trans hbaseTick)
  refine ⟨hsame, fun receiver out happly => ?_⟩
  rw [hsame, ← hbase] at happly
  refine applyDelta_buildDelta (fun b hb => ?_) hnormal hdeltaOf happly
  rw [hbase] at hb
  exact some.inj hb ▸ hbaseNormal

/-- What the client is shown of a snapshot by a projector that does not look at the context. -/
def view (r : Replicator) (y : Snapshot) : Except ReplicationError Snapshot :=
  r.projectAndNormalize
    { session := r.state.info, qualityTier := 0, previous := none, fullRefresh := false } y

theorem view_of_sameConfig (h : SameConfig r r') : view r' = view r := by
  funext y
  simp only [view, Replicator.projectAndNormalize, h.info, h.projector, h.limits]

/-- The snapshot is what the client is shown of a published one. -/
def Viewed (s : Server) (x : Snapshot) : Prop :=
  ∃ y ∈ s.published, y.tick = x.tick ∧ view s.r y = .ok x

structure PlainInv (project : SessionInfo → Snapshot → Except ReplicationError Snapshot)
    (w : World) : Prop where
  plain : w.server.r.projector = .plain project
  distinct : ∀ x ∈ w.server.published, ∀ y ∈ w.server.published, x.tick = y.tick → x = y
  latest : ∀ x ∈ w.server.published,
    x.tick ≤ w.server.r.ring.latest ∧ w.server.r.ring.latest ≠ 0
  frames : ∀ f ∈ w.server.frames.map PreparedFrame.undecided, Viewed w.server f.snapshot
  emitted : ∀ x ∈ w.emitted, Viewed w.server x

theorem Viewed.mono (h : Viewed s x) (hsame : SameConfig s.r s'.r)
    (hsub : s.published ⊆ s'.published) : Viewed s' x := by
  obtain ⟨y, hy, htick, hview⟩ := h
  exact ⟨y, hsub hy, htick, by rwa [view_of_sameConfig hsame]⟩

variable {project : SessionInfo → Snapshot → Except ReplicationError Snapshot}

theorem viewed_buildFrame (hplain : server.r.projector = .plain project)
    (hseen : seen ∈ server.published) (hp : (prepare server.r.state seen.tick).1 = .ok p)
    (hf : server.r.buildFrame crc seen p = .ok f) : Viewed server f.snapshot := by
  have hmeta := (buildFrame_eq_ok hf).1
  have hinfo : p.info = server.r.state.info := by
    rw [(prepare_eq_ok hp).1]
    rfl
  simp only [Replicator.buildFrame, bind_eq_ok, pure_eq_ok] at hf
  obtain ⟨shown, hshown, frame, _, encoded, _, datagrams, _, rfl⟩ := hf
  refine ⟨seen, hseen, congrArg SnapshotMeta.tick hmeta.symm, ?_⟩
  simpa only [view, Replicator.projectAndNormalize, Projector.project, hplain, hinfo] using hshown

section

variable (h : PlainInv project w)
include h

theorem PlainInv.stepped (hnext : w.server.next crc l = some server) :
    PlainInv project { w with server } := by
  have hsame := sameConfig_next hnext
  have hplain := hsame.projector.trans h.plain
  -- a step that publishes nothing and prepares no frame
  have hkept (hpublished : server.published = w.server.published)
      (hframes : server.frames.map PreparedFrame.undecided =
        w.server.frames.map PreparedFrame.undecided)
      (hring : server.r.ring = w.server.r.ring) : PlainInv project { w with server } := by
    have hsub : w.server.published ⊆ server.published := hpublished ▸ List.Subset.refl _
    refine ⟨hplain, hpublished ▸ h.distinct, ?_, ?_, fun x hx => (h.emitted x hx).mono hsame hsub⟩
    · rw [hpublished, hring]
      exact h.latest
    · rw [hframes]
      exact fun f hf => (h.frames f hf).mono hsame hsub
  cases stepped_next hnext with
  | @published _ normalized _ hnew hadd =>
    obtain ⟨-, hlatest, hgrows⟩ := add_eq_ok hadd
    have hzero : normalized.tick ≠ 0 := by
      have hvalid := (newSnapshot_eq_ok hnew).2.2.meta_valid
      simp only [SnapshotMeta.validate, rejectIf_eq_ok] at hvalid
      push Not at hvalid
      exact hvalid.2.2.1
    have hnewer (x : Snapshot) (hx : x ∈ w.server.published) : x.tick < normalized.tick := by
      obtain ⟨hle, hne⟩ := h.latest x hx
      exact UInt32.lt_of_le_of_lt hle (hgrows hne)
    have hsub : w.server.published ⊆ w.server.published ++ [normalized] := subset_append_left ..
    refine ⟨hplain, ?_, ?_, fun f hf => (h.frames f hf).mono hsame hsub,
      fun x hx => (h.emitted x hx).mono hsame hsub⟩
    · simp only [forall_mem_append, forall_mem_singleton]
      have hne (x : Snapshot) (hx : x ∈ w.server.published) := UInt32.ne_of_lt (hnewer x hx)
      exact ⟨fun x hx => ⟨h.distinct x hx, fun htick => absurd htick (hne x hx)⟩,
        fun y hy htick => absurd htick.symm (hne y hy), fun _ => trivial⟩
    · simp only [hlatest, forall_mem_append, forall_mem_singleton]
      exact ⟨fun x hx => ⟨UInt32.le_of_lt (hnewer x hx), hzero⟩, UInt32.le_refl _, hzero⟩
  | @prepared _ _ _ hseen hp hf =>
    have hsub : w.server.published ⊆ w.server.published := List.Subset.refl _
    refine ⟨hplain, h.distinct, h.latest, ?_, fun x hx => (h.emitted x hx).mono hsame hsub⟩
    intro g hg
    simp only [map_append, mem_append, map_cons, map_nil, mem_singleton] at hg
    rcases hg with hg | rfl
    · exact (h.frames g hg).mono hsame hsub
    · exact (viewed_buildFrame h.plain hseen hp hf).mono hsame hsub
  | recorded _ _ hpublished hframes hr => exact hkept hpublished hframes (by rw [hr])
  | other hpublished hframes hring => exact hkept hpublished hframes hring

theorem PlainInv.viewed (hf : w.server.frames[i]? = some f) : Viewed w.server f.snapshot :=
  h.frames f.undecided (mem_map_of_mem (mem_of_getElem? hf))

theorem PlainInv.agrees (hx : Viewed w.server x) : Agrees w.emitted x := by
  intro y hy htick
  obtain ⟨origin, hmem, horigin, hview⟩ := hx
  obtain ⟨origin', hmem', horigin', hview'⟩ := h.emitted y hy
  have hsame : origin' = origin :=
    h.distinct origin' hmem' origin hmem (by rw [horigin', htick, horigin])
  rw [hsame] at hview'
  exact Except.ok.inj (hview'.symm.trans hview)

theorem PlainInv.emit (hx : Viewed w.server x) :
    PlainInv project { w with emitted := w.emitted ++ [x] } := by
  refine { h with emitted := ?_ }
  rw [forall_mem_append, forall_mem_singleton]
  exact ⟨h.emitted, hx⟩

end

theorem PlainInv.oneProjection (h : PlainInv project w) (l : Label) : oneProjection w l := by
  cases l with
  | send => exact fun f hf => h.agrees (h.viewed hf)
  | receive => trivial
  | server l =>
    cases l with
    | commit => exact fun f hf _ => h.agrees (h.viewed hf)
    | _ => trivial

theorem plainInv_next {l : Label} (h : PlainInv project w)
    (hnext : next crc clientLimits w l = some w') : PlainInv project w' := by
  cases l with
  | server l =>
    simp only [next] at hnext
    split_ifs at hnext
    obtain ⟨server, hserver, rfl⟩ := map_eq_some_iff.mp hnext
    have hemitted : PlainInv project { w with emitted := emittedAfter w l } := by
      fun_cases emittedAfter w l with
      | case1 _ f hf => exact h.emit (h.viewed hf)
      | _ => exact h
    exact hemitted.stepped hserver
  | send =>
    obtain ⟨f, hf, heq⟩ := bind_eq_some_iff.mp hnext
    cases heq
    exact { h.emit (h.viewed hf) with }
  | receive =>
    obtain ⟨f, hf, heq⟩ := bind_eq_some_iff.mp hnext
    split_ifs at heq
    split at heq <;> obtain rfl := some.inj heq
    · exact { h with }
    · exact h

section

variable (h : Reach (next crc clientLimits)
  (initial limits ringSize maxDatagram (.plain project) transport info) anyStep w)
include h

theorem plainInv_reach : PlainInv project w := by
  refine h.invariant ?_ ?_
  · rintro ⟨server, wire, held, emitted⟩ ⟨rfl, rfl, rfl, rfl⟩
    exact ⟨rfl, nofun, nofun, nofun, nofun⟩
  · intro w l w' hinv _ hnext
    exact plainInv_next hinv hnext

theorem oneProjection_of_plain :
    Reach (next crc clientLimits)
      (initial limits ringSize maxDatagram (.plain project) transport info) oneProjection w := by
  induction h with
  | start hinit => exact .start hinit
  | step hreach _ hnext ih =>
    exact .step ih ((plainInv_reach hreach).oneProjection _) hnext

/-- What the client has put together is what it is shown of the snapshot published under its
tick. -/
theorem client_holds_published :
    ∀ x ∈ w.held, ∃ y ∈ w.server.published, y.tick = x.tick ∧ view w.server.r y = .ok x := by
  intro x hx
  have hemitted : x ∈ w.emitted := (inv_reach (oneProjection_of_plain h)).held x hx
  exact (plainInv_reach h).emitted x hemitted

end

/-- Hide the objects from a client with a poor connection. -/
def hideWhenPoor : Projector :=
  .contextual fun projection snapshot =>
    .ok { snapshot with objects := if projection.qualityTier = 0 then snapshot.objects else [] }

/-- The frame is a delta frame, and the client holds something for its base. -/
def Reached (w : World) (f : PreparedFrame) (x : Snapshot) : Prop :=
  f.frame.kind = .delta ∧ x ∈ w.held ∧ x.tick = f.frame.baseTick

def oneClient (projector : Projector) : World :=
  ⟨⟨newReplicator defaultLimits 0 0 projector none ⟨1, 0, 0, 0⟩, [], []⟩, [], [], []⟩

def preparedSatisfies (test : PreparedFrame → Bool) :
    Except ReplicationError PreparedFrame → Bool
  | .ok f => test f
  | .error _ => false

theorem exists_of_preparedSatisfies (h : preparedSatisfies test out = true) :
    ∃ f, out = .ok f ∧ test f = true := by
  cases out with
  | ok f => exact ⟨f, rfl, h⟩
  | error => cases h

theorem client_holds_published_second :
    ∃ w, Reach (next (fun _ => 0) defaultLimits)
        (initial defaultLimits 0 0 (.plain fun _ => .ok) none ⟨1, 0, 0, 0⟩) anyStep w ∧
      oneObject 2 [8] ∈ w.held ∧
      ∃ y ∈ w.server.published, y.tick = 2 ∧ view w.server.r y = .ok (oneObject 2 [8]) := by
  refine exists_reach_imp (P := fun w => oneObject 2 [8] ∈ w.held)
    (exists_of_anyRun (s := oneClient (.plain fun _ => .ok)) ⟨rfl, rfl, rfl, rfl⟩
      [.server (.publish (oneObject 1 [7])), .server (.prepare (oneObject 1 [7])), .send 0,
        .server (.commit 0), .receive 0 none, .server (.acknowledge 1 (oneObject 1 [7])),
        .server (.publish (oneObject 2 [8])), .server (.prepare (oneObject 2 [8])), .send 1,
        .receive 1 (some (oneObject 1 [7]))]
      (by decide +kernel)) ?_
  intro w hreach hheld
  exact ⟨hheld, client_holds_published hreach _ hheld⟩

theorem baseline_agreement_first_frame :
    ∃ w f x, Reach (next (fun _ => 0) defaultLimits)
        (initial defaultLimits 0 0 hideWhenPoor none ⟨1, 0, 0, 0⟩) oneProjection w ∧
      (w.server.r.prepareFrom (fun _ => 0) (oneObject 2 [8])).1 = .ok f ∧
      Reached w f x ∧ w.server.r.state.sent.lookup f.frame.baseTick = some x := by
  obtain ⟨w, hreach, hheld, hprepared⟩ : ∃ w,
      Reach (next (fun _ => 0) defaultLimits)
      (initial defaultLimits 0 0 hideWhenPoor none ⟨1, 0, 0, 0⟩) oneProjection w ∧
      oneObject 1 [7] ∈ w.held ∧
      preparedSatisfies (fun f => f.frame.kind = .delta ∧ f.frame.baseTick = 1)
      (w.server.r.prepareFrom (fun _ => 0) (oneObject 2 [8])).1 :=
    exists_of_run (s := oneClient hideWhenPoor) ⟨rfl, rfl, rfl, rfl⟩
      (fun w l => decide (oneProjection w l))
      [.server (.publish (oneObject 1 [7])), .server (.prepare (oneObject 1 [7])), .send 0,
        .server (.commit 0), .receive 0 none, .server (.acknowledge 1 (oneObject 1 [7])),
        .server (.publish (oneObject 2 [8]))]
      (fun _ _ _ => of_decide_eq_true) (by decide +kernel)
  obtain ⟨f, hf, htest⟩ := exists_of_preparedSatisfies hprepared
  obtain ⟨hdelta, hbase⟩ := of_decide_eq_true htest
  obtain ⟨base, hlookup, hagree⟩ := baseline_agreement hreach hf hdelta
  have htick : (oneObject 1 [7]).tick = f.frame.baseTick := hbase.symm
  have hsame := (hagree (oneObject 1 [7]) hheld htick).1
  exact ⟨w, f, oneObject 1 [7], hreach, hf, ⟨hdelta, hheld, htick⟩, hsame ▸ hlookup⟩

/-- The tick is sent once more when the quality tier has changed, and that frame is lost. -/
theorem second_projection_replaces_base :
    ∃ w f x, Reach (next (fun _ => 0) defaultLimits)
        (initial defaultLimits 0 0 hideWhenPoor none ⟨1, 0, 0, 0⟩) anyStep w ∧
      (w.server.r.prepareLatest fun _ => 0).1 = .ok f ∧ Reached w f x ∧
      w.server.r.state.sent.lookup f.frame.baseTick ≠ some x ∧
      ∃ out, applyDelta (some x) f.frame defaultLimits = .ok out ∧ out ≠ f.snapshot := by
  obtain ⟨w, hreach, hheld, hprepared⟩ : ∃ w,
      Reach (next (fun _ => 0) defaultLimits)
      (initial defaultLimits 0 0 hideWhenPoor none ⟨1, 0, 0, 0⟩) anyStep w ∧
      oneObject 1 [7] ∈ w.held ∧
      preparedSatisfies (fun f => f.frame.kind = .delta ∧ f.frame.baseTick = 1 ∧
      w.server.r.state.sent.lookup f.frame.baseTick ≠ some (oneObject 1 [7]) ∧
      applyDelta (some (oneObject 1 [7])) f.frame defaultLimits = .ok (oneObject 2 [7]) ∧
      oneObject 2 [7] ≠ f.snapshot) (w.server.r.prepareLatest fun _ => 0).1 :=
    exists_of_anyRun (s := oneClient hideWhenPoor) ⟨rfl, rfl, rfl, rfl⟩
      [.server (.publish (oneObject 1 [7])), .server (.prepare (oneObject 1 [7])), .send 0,
        .server (.commit 0), .receive 0 none, .server (.setQualityTier 1),
        .server (.prepare (oneObject 1 [7])), .send 1, .server (.commit 1),
        .server (.acknowledge 1 (oneObject 1 [7])), .server (.publish (oneObject 2 [8]))]
      (by decide +kernel)
  obtain ⟨f, hf, htest⟩ := exists_of_preparedSatisfies hprepared
  obtain ⟨hdelta, hbase, hlookup, happly, hne⟩ := of_decide_eq_true htest
  exact ⟨w, f, oneObject 1 [7], hreach, hf, ⟨hdelta, hheld, hbase.symm⟩, hlookup,
    oneObject 2 [7], happly, hne⟩

end CubeCore.BaselineAgreement
