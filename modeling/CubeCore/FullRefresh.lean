import CubeCore.FramePreparation

namespace CubeCore.FullRefresh

open ReplicationSnapshot List Option TransitionSystem
open CubeCore.ReplicationSession hiding Label next initial
open CubeCore.FramePreparation hiding initial

/-- `owed` is the number of frames prepared when a full frame was last demanded, until one prepared
since is committed. -/
structure Watched where
  server : Server
  owed : Option Nat

variable (s : Watched)

/-- What is owed after the session, if it is open, was asked for a full frame. -/
def demanded : Option Nat :=
  if s.server.r.state.closed then s.owed else some s.server.frames.length

/-- What is owed after a frame was committed. -/
def discharged (i : Nat) (p : PreparedFrame) : Option Nat :=
  s.owed.filter fun mark =>
    !(decide (mark ≤ i) && p.full && commits s.server.r.state p.toPending)

def owedAfter : Label → Option Nat
  | .forceFull => demanded s
  | .handleControl message seen =>
    if message.type = .resync ∧ succeeds (s.server.r.handleControl message seen).1 then
      demanded s
    else s.owed
  | .setTransport transport registration =>
    if sameTransport s.server.r.transport transport = false ∧ succeeds registration then
      demanded s
    else s.owed
  | .commit i => (s.server.frames[i]?).elim s.owed (discharged s i)
  | _ => s.owed

variable (crc : List UInt8 → UInt32)

def next (s : Watched) (l : Label) : Option Watched :=
  (s.server.next crc l).map fun server => ⟨server, owedAfter s l⟩

variable (limits : Limits) (ringSize maxDatagram : Int) (projector : Projector)
  (transport : Option Transport) (info : SessionInfo)

def initial (s : Watched) : Prop :=
  FramePreparation.initial limits ringSize maxDatagram projector transport info s.server ∧
    s.owed = none

/-- An acknowledgement that is accepted and moves the acknowledged tick. -/
def Advances (state : SessionState) (tick latest : UInt32) : Prop :=
  state.ackTick < tick ∧ tick ≤ latest ∧ tick ∈ state.sent

/-- No acknowledgement moves the acknowledged tick while a full frame is owed. -/
def noLateAck : Label → Prop
  | .acknowledge tick seen => s.owed ≠ none → ¬ Advances s.server.r.state tick seen.tick
  | .handleControl message seen =>
    s.owed ≠ none → message.type = .ack → ¬ Advances s.server.r.state message.tick seen.tick
  | _ => True

instance (state : SessionState) (tick latest : UInt32) : Decidable (Advances state tick latest) :=
  inferInstanceAs (Decidable (_ ∧ _ ∧ _))

instance (s : Watched) : DecidablePred (noLateAck s)
  | .acknowledge _ _ => inferInstanceAs (Decidable (_ → _))
  | .handleControl _ _ => inferInstanceAs (Decidable (_ → _ → _))
  | .publish _ | .prepare _ | .commit _ | .abort _ | .forceFull | .setQualityTier _
  | .setTransport _ _ => inferInstanceAs (Decidable True)

variable {crc limits ringSize maxDatagram projector transport info}

/-- While a full frame is owed the session asks for one, and no older frame can be committed. -/
structure Inv (s : Watched) : Prop where
  generation_le : ∀ p ∈ s.server.frames.map PreparedFrame.undecided,
    p.generation ≤ s.server.r.state.generation
  forceFull : s.owed ≠ none → s.server.r.state.forceFull = true
  older : ∀ mark, s.owed = some mark → mark ≤ s.server.frames.length ∧
    ∀ i < mark, ∀ p, (s.server.frames.map PreparedFrame.undecided)[i]? = some p →
      p.generation < s.server.r.state.generation

variable {s s' : Watched} {server : Server}

theorem Inv.kept (h : Inv s)
    (hframes : server.frames.map PreparedFrame.undecided =
      s.server.frames.map PreparedFrame.undecided)
    (hgeneration : s.server.r.state.generation ≤ server.r.state.generation)
    (hforce : s.owed ≠ none → s.server.r.state.forceFull = true → server.r.state.forceFull = true) :
    Inv ⟨server, s.owed⟩ where
  generation_le p hp := (h.generation_le p (hframes ▸ hp)).trans hgeneration
  forceFull howed := hforce howed (h.forceFull howed)
  older mark hmark := by
    obtain ⟨hle, holder⟩ := h.older mark hmark
    have hlength := congrArg length hframes
    simp only [length_map] at hlength
    refine ⟨hlength ▸ hle, fun i hi p hp => ?_⟩
    exact (holder i hi p (hframes ▸ hp)).trans_le hgeneration

theorem Inv.demand (h : Inv s) (hframes : server.frames = s.server.frames)
    (hgeneration : server.r.state.generation = s.server.r.state.generation + 1)
    (hforce : server.r.state.forceFull = true) :
    Inv ⟨server, some s.server.frames.length⟩ where
  generation_le p hp := by
    have hle := h.generation_le p (hframes ▸ hp)
    simp only [hgeneration]
    omega
  forceFull _ := hforce
  older mark hmark := by
    cases hmark
    refine ⟨hframes ▸ le_rfl, fun i _ p hp => ?_⟩
    have hle := h.generation_le p (hframes ▸ mem_of_getElem? hp)
    simp only [hgeneration]
    omega

theorem Inv.append (h : Inv s) {f} (hframes : server.frames = s.server.frames ++ [f])
    (hgeneration : server.r.state.generation = s.server.r.state.generation)
    (hf : f.generation = s.server.r.state.generation)
    (hforce : s.server.r.state.forceFull = true → server.r.state.forceFull = true) :
    Inv ⟨server, s.owed⟩ where
  generation_le p hp := by
    simp only [hframes, map_append, mem_append, map_cons, map_nil, mem_singleton] at hp
    rw [hgeneration]
    rcases hp with hp | rfl
    · exact h.generation_le p hp
    · exact hf.le
  forceFull howed := hforce (h.forceFull howed)
  older mark hmark := by
    obtain ⟨hle, holder⟩ := h.older mark hmark
    refine ⟨by simp only [hframes, length_append]; omega, fun i hi p hp => ?_⟩
    rw [hgeneration]
    refine holder i hi p ?_
    rwa [hframes, map_append, getElem?_append_left (by simp; omega)] at hp

variable {seen : Snapshot} {i : Nat}

theorem inv_prepare (h : Inv s) (hnext : s.server.next crc (.prepare seen) = some server) :
    Inv ⟨server, s.owed⟩ := by
  have hgeneration := prepare_generation s.server.r.state seen.tick
  obtain ⟨-, rfl | ⟨p, f, hp, hbuild, rfl⟩⟩ := next_prepare hnext
  · exact h.kept rfl hgeneration.ge fun _ hforce => prepare_forceFull hforce seen.tick
  have hf : f.generation = s.server.r.state.generation := by
    rw [(buildFrame_eq_ok hbuild).2.2.2.1, (prepare_eq_ok hp).1]
    rfl
  exact h.append rfl hgeneration hf fun hforce => prepare_forceFull hforce seen.tick

theorem Inv.settled (h : Inv s) : Inv ⟨s.server, none⟩ :=
  ⟨h.generation_le, fun hne => absurd rfl hne, nofun⟩

theorem Inv.mark_le {p : PreparedFrame} {mark : Nat} (h : Inv s)
    (hp : s.server.frames[i]? = some p) (hmark : s.owed = some mark)
    (hgeneration : p.generation = s.server.r.state.generation) : mark ≤ i := by
  by_contra hlt
  have hundecided : (s.server.frames.map PreparedFrame.undecided)[i]? = some p.undecided := by
    rw [getElem?_map, hp]
    rfl
  have holder := (h.older mark hmark).2 i (by omega) p.undecided hundecided
  exact absurd hgeneration holder.ne

theorem discharged_cases (s : Watched) (i : Nat) (p : PreparedFrame) :
    discharged s i p = s.owed ∨ discharged s i p = none := by
  unfold discharged
  cases howed : s.owed with
  | none => exact .inl rfl
  | some =>
    rw [filter_some]
    split
    · exact .inl rfl
    · exact .inr rfl

theorem Inv.discharge (h : Inv ⟨server, s.owed⟩) (i : Nat) (p : PreparedFrame) :
    Inv ⟨server, discharged s i p⟩ := by
  rcases discharged_cases s i p with heq | heq <;> rw [heq]
  · exact h
  · exact h.settled

theorem inv_commit (h : Inv s) (hnext : s.server.next crc (.commit i) = some server) :
    Inv ⟨server, owedAfter s (.commit i)⟩ := by
  obtain ⟨p, hp, -, hframes, hr⟩ := next_commit hnext
  have howed : owedAfter s (.commit i) = discharged s i p := by
    simp only [owedAfter, hp, elim_some]
  rw [howed]
  rcases commit_cases p.toPending s.server.r.state with hsame | ⟨hgen, hcommits, hrecord⟩
  · rw [hsame] at hr
    exact (h.kept hframes (by rw [hr]) fun _ hforce => by rw [hr]; exact hforce).discharge i p
  rw [hrecord] at hr
  have hgeneration : server.r.state.generation = s.server.r.state.generation := by
    rw [hr]
    rfl
  cases hfull : p.full with
  | false =>
    refine (h.kept hframes hgeneration.ge fun _ hforce => ?_).discharge i p
    simpa [hr, record, hfull] using hforce
  | true =>
    have hnone : discharged s i p = none := by
      unfold discharged
      cases hmark : s.owed with
      | none => rfl
      | some =>
        have hle := h.mark_le hp hmark hgen
        simp [filter_some, hle, hfull, hcommits]
    rw [hnone]
    exact h.settled.kept hframes hgeneration.ge fun hne => absurd rfl hne

theorem inv_acked {tick latest controlSeq : UInt32} (h : Inv s)
    (hlate : s.owed ≠ none → ¬ Advances s.server.r.state tick latest) (htick : tick ≤ latest)
    (hsent : s.server.r.state.sent.lookup tick ≠ none) :
    Inv ⟨s.server.withState (advanceAck { s.server.r.state with controlSeq } tick), s.owed⟩ := by
  unfold advanceAck
  split_ifs with hlt
  · refine h.kept rfl le_rfl fun howed _ => ?_
    have hmem : tick ∈ s.server.r.state.sent :=
      AList.lookup_isSome.mp (isSome_iff_ne_none.mpr hsent)
    exact absurd ⟨hlt, htick, hmem⟩ (hlate howed)
  · exact h.kept rfl le_rfl fun _ => id

theorem inv_forced (h : Inv s) :
    Inv ⟨s.server.withState (ReplicationSession.forceFull s.server.r.state), demanded s⟩ := by
  unfold ReplicationSession.forceFull demanded
  split
  · exact h
  · exact h.demand rfl rfl rfl

theorem inv_handleControl {message : ControlMessage} (h : Inv s)
    (hguard : noLateAck s (.handleControl message seen)) :
    Inv ⟨{ s.server with r := (s.server.r.handleControl message seen).2 },
      owedAfter s (.handleControl message seen)⟩ := by
  simp only [owedAfter]
  rcases handleControl_cases s.server.r message seen with ⟨e, heq⟩ | heq <;> rw [heq]
  · rwa [if_neg (by exact fun hand => nomatch hand.2)]
  have hcontrolled := controlled_handleControl s.server.r.state message seen.tick
  generalize ReplicationSession.handleControl s.server.r.state message seen.tick = out
    at hcontrolled
  cases hcontrolled with
  | ignored =>
    rwa [if_neg (by exact fun hand => nomatch hand.2)]
  | refused =>
    rw [if_neg (by exact fun hand => nomatch hand.2)]
    exact h.kept rfl le_rfl fun _ => id
  | acked _ _ htype _ htick _ hsent =>
    rw [if_neg (by rw [htype]; exact fun hand => nomatch hand.1)]
    exact inv_acked h (fun howed => hguard howed htype) htick hsent
  | resynced hopen _ htype =>
    rw [if_pos ⟨htype, rfl⟩, demanded, if_neg (by rw [hopen]; exact Bool.false_ne_true)]
    exact h.demand rfl rfl rfl

theorem inv_setTransport {transport registration} (h : Inv s) :
    Inv ⟨{ s.server with r := (s.server.r.setTransport transport registration).2 },
      owedAfter s (.setTransport transport registration)⟩ := by
  simp only [owedAfter, Replicator.setTransport]
  cases hsame : sameTransport s.server.r.transport transport with
  | true => exact h
  | false =>
    cases registration with
    | error => exact h
    | ok =>
      exact (inv_forced h).kept rfl le_rfl fun _ => id

theorem inv_next {l : Label} (h : Inv s) (hguard : noLateAck s l) (hnext : next crc s l = some s') :
    Inv s' := by
  obtain ⟨server, hserver, rfl⟩ := map_eq_some_iff.mp hnext
  cases l with
  | publish =>
    simp only [Server.next] at hserver
    split at hserver <;> obtain rfl := some.inj hserver
    · exact h
    · rename_i hpublish
      obtain ⟨-, ring, -, rfl⟩ := publish_eq_ok hpublish
      exact h.kept rfl le_rfl fun _ => id
  | prepare => exact inv_prepare h hserver
  | commit => exact inv_commit h hserver
  | abort =>
    obtain ⟨p, hp, heq⟩ := bind_eq_some_iff.mp hserver
    cases heq
    exact h.kept (map_undecided_set hp (undecided_abort p)) le_rfl fun _ => id
  | acknowledge tick seen =>
    simp only [Server.next] at hserver
    split_ifs at hserver
    cases hserver
    rcases acknowledge_cases s.server.r.state tick seen.tick with
      ⟨e, heq⟩ | ⟨-, -, htick, -, hsent, heq⟩
    · rwa [heq]
    · rw [heq]
      exact inv_acked h hguard htick hsent
  | handleControl =>
    simp only [Server.next] at hserver
    split_ifs at hserver
    cases hserver
    exact inv_handleControl h hguard
  | forceFull =>
    cases hserver
    exact inv_forced h
  | setQualityTier =>
    cases hserver
    unfold setQualityTier
    split
    · exact h
    · split
      · exact h.kept rfl (Nat.le_succ _) fun _ => id
      · exact h
  | setTransport =>
    cases hserver
    exact inv_setTransport h

theorem inv_reach
    (h : Reach (next crc) (initial limits ringSize maxDatagram projector transport info)
      noLateAck s) : Inv s := by
  refine h.invariant ?_ fun s l s' => inv_next
  rintro ⟨server, owed⟩ ⟨rfl, rfl⟩
  exact ⟨nofun, fun hne => absurd rfl hne, nofun⟩

/-- If no acknowledgement moves the tick between a demand and the commit of a full frame, every
frame prepared in between is full. -/
theorem full_until_committed {current : Snapshot} {f : PreparedFrame}
    (h : Reach (next crc) (initial limits ringSize maxDatagram projector transport info)
      noLateAck s) (howed : s.owed ≠ none) (hf : (s.server.r.prepareFrom crc current).1 = .ok f) :
    f.frame.kind = .full := by
  have hinv := inv_reach h
  obtain ⟨p, hp, hbuild⟩ := prepareFrom_eq_ok hf
  rw [kind_of_buildFrame hbuild]
  by_contra hbase
  obtain ⟨base, hbase⟩ := ne_none_iff_exists'.mp hbase
  have hforce := ((prepare_eq_ok hp).2.2 base hbase).1
  rw [hinv.forceFull howed] at hforce
  cases hforce

def bareSnapshot (tick : UInt32) : Snapshot :=
  ⟨⟨1, 1, tick, 1⟩, []⟩

def noSum : List UInt8 → UInt32 := fun _ => 0

def started : Watched :=
  ⟨⟨newReplicator defaultLimits 0 0 .identity none ⟨1, 0, 0, 0⟩, [], []⟩, none⟩

theorem initial_started : initial defaultLimits 0 0 .identity none ⟨1, 0, 0, 0⟩ started :=
  ⟨rfl, rfl⟩

theorem full_until_committed_after_demand :
    ∃ s f, Reach (next noSum) (initial defaultLimits 0 0 .identity none ⟨1, 0, 0, 0⟩) noLateAck s ∧
      s.owed = some 1 ∧ s.server.r.state.ackTick = 1 ∧
      (s.server.r.prepareFrom noSum (bareSnapshot 2)).1 = .ok f ∧ f.frame.kind = .full := by
  obtain ⟨s, hreach, howed, hack, hkind⟩ : ∃ s,
      Reach (next noSum) (initial defaultLimits 0 0 .identity none ⟨1, 0, 0, 0⟩) noLateAck s ∧
      s.owed = some 1 ∧ s.server.r.state.ackTick = 1 ∧
      kindOf (s.server.r.prepareFrom noSum (bareSnapshot 2)).1 = some .full :=
    exists_of_run initial_started (fun s l => decide (noLateAck s l))
      [.publish (bareSnapshot 1), .prepare (bareSnapshot 1), .commit 0,
        .acknowledge 1 (bareSnapshot 1), .publish (bareSnapshot 2), .forceFull]
      (fun _ _ _ => of_decide_eq_true) (by decide +kernel)
  obtain ⟨f, hf, -⟩ := kindOf_eq_some hkind
  have hne : s.owed ≠ none := by
    rw [howed]
    exact nofun
  exact ⟨s, f, hreach, howed, hack, hf, full_until_committed hreach hne hf⟩

/-- A full frame is demanded, and then the acknowledgement of a frame comes that was sent
before. -/
theorem late_ack_ends_refresh :
    ∃ s f, Reach (next noSum) (initial defaultLimits 0 0 .identity none ⟨1, 0, 0, 0⟩) anyStep s ∧
      s.owed = some 1 ∧ (s.server.r.prepareLatest noSum).1 = .ok f ∧ f.frame.kind = .delta := by
  obtain ⟨s, hreach, howed, hkind⟩ : ∃ s,
      Reach (next noSum) (initial defaultLimits 0 0 .identity none ⟨1, 0, 0, 0⟩) anyStep s ∧
      s.owed = some 1 ∧ kindOf (s.server.r.prepareLatest noSum).1 = some .delta :=
    exists_of_anyRun initial_started
      [.publish (bareSnapshot 1), .prepare (bareSnapshot 1), .commit 0, .forceFull,
        .acknowledge 1 (bareSnapshot 1), .publish (bareSnapshot 2)] (by decide +kernel)
  obtain ⟨f, hf, hdelta⟩ := kindOf_eq_some hkind
  exact ⟨s, f, hreach, howed, hf, hdelta⟩

end CubeCore.FullRefresh
