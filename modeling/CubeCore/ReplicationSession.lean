import CubeCore.ReplicationSnapshot
import CubeCore.TransitionSystem
import Mathlib.Algebra.Group.Nat.Defs

namespace CubeCore.ReplicationSession

open Checked ReplicationSnapshot List AList Option Nat

structure SessionInfo where
  id : UInt64
  ownerID : Int64
  teamID : Int64
  roles : UInt64
deriving DecidableEq

inductive ControlType where
  | ack
  | resync
  | unknown (code : UInt8)
deriving DecidableEq

inductive ResyncReason where
  | unknown
  | baselineMissing
  | reassemblyExpired
  | decodeFailure
  | schemaMismatch
  | undefined (code : UInt8)
deriving DecidableEq

structure ControlMessage where
  type : ControlType
  reason : ResyncReason
  roomID : UInt64
  epoch : UInt32
  tick : UInt32
  sequence : UInt32
deriving DecidableEq

abbrev Sent := AList fun _ : UInt32 => Snapshot

structure SessionState where
  info : SessionInfo
  ackTick : UInt32
  lastSent : UInt32
  sequence : UInt32
  forceFull : Bool
  closed : Bool
  qualityTier : UInt8
  sent : Sent
  sentOrder : List UInt32
  maxHistory : Nat
  generation : Nat
  committed : UInt32
  controlSeq : UInt32

def newSession (info : SessionInfo) : SessionState where
  info := info
  ackTick := 0
  lastSent := 0
  sequence := 0
  forceFull := true
  closed := false
  qualityTier := 0
  sent := ∅
  sentOrder := []
  maxHistory := 64
  generation := 0
  committed := 0
  controlSeq := 0

def newSessionState (info : SessionInfo) : Except ReplicationError SessionState := do
  rejectIf (info.id = 0) .sessionNotFound
  return newSession info

structure Preparation where
  info : SessionInfo
  qualityTier : UInt8
  base : Option Snapshot
  previous : Option Snapshot
  sequence : UInt32
  generation : Nat
  fullRefresh : Bool

/-- The counter skips zero when it wraps around. -/
def nextSequence (sequence : UInt32) : UInt32 :=
  if sequence + 1 = 0 then 1 else sequence + 1

variable (s : SessionState)

def preparation (base : Option Snapshot) : Preparation where
  info := s.info
  qualityTier := s.qualityTier
  base := base
  previous := s.sent.lookup s.lastSent
  sequence := s.sequence
  generation := s.generation
  fullRefresh := base.isNone

def prepare (targetTick : UInt32) : Except ReplicationError Preparation × SessionState :=
  if s.closed then (.error .sessionNotFound, s)
  else
    let s := { s with sequence := nextSequence s.sequence }
    if s.forceFull = false ∧ s.ackTick ≠ 0 ∧ s.ackTick < targetTick then
      match s.sent.lookup s.ackTick with
      | some base => (.ok (preparation s (some base)), s)
      | none => (.ok (preparation s none), { s with forceFull := true })
    else (.ok (preparation s none), s)

/-- The loop at the end of `commitPrepared`. -/
def evict (maxHistory : Nat) : List UInt32 → Sent → List UInt32 × Sent
  | [], sent => ([], sent)
  | oldest :: rest, sent =>
    if maxHistory < (oldest :: rest).length then evict maxHistory rest (sent.erase oldest)
    else (oldest :: rest, sent)

/-- The part of `commitPrepared` behind its checks. -/
def record (snapshot : Snapshot) (sequence : UInt32) (full : Bool) : SessionState :=
  let order :=
    if s.sent.lookup snapshot.tick = none then s.sentOrder ++ [snapshot.tick] else s.sentOrder
  let kept := evict s.maxHistory order (s.sent.insert snapshot.tick snapshot)
  { s with
    committed := sequence
    lastSent := if s.lastSent < snapshot.tick then snapshot.tick else s.lastSent
    sentOrder := kept.1
    sent := kept.2
    forceFull := if full then false else s.forceFull }

def commitPrepared (snapshot : Snapshot) (sequence : UInt32) (generation : Nat) (full : Bool) :
    Except ReplicationError Unit × SessionState :=
  if s.closed then (.error .sessionNotFound, s)
  else if generation ≠ s.generation ∨ sequence ≤ s.committed then
    (.error .preparedFrameStale, s)
  else (.ok (), record s snapshot sequence full)

/-- An acknowledgement that was accepted. -/
def advanceAck (tick : UInt32) : SessionState :=
  if s.ackTick < tick then { s with ackTick := tick, forceFull := false } else s

def acknowledge (tick latestPublished : UInt32) : Except ReplicationError Unit × SessionState :=
  if tick = 0 ∨ latestPublished < tick then (.error .invalidAck, s)
  else if s.closed then (.error .sessionNotFound, s)
  else if s.lastSent < tick then (.error .invalidAck, s)
  else if s.sent.lookup tick = none then (.error .invalidAck, s)
  else (.ok (), advanceAck s tick)

def handleControl (message : ControlMessage) (latestPublished : UInt32) :
    Except ReplicationError Unit × SessionState :=
  if s.closed then (.error .sessionNotFound, s)
  else if message.sequence ≤ s.controlSeq then (.error .invalidControl, s)
  else
    let s := { s with controlSeq := message.sequence }
    match message.type with
    | .ack =>
      if message.tick = 0 ∨ latestPublished < message.tick ∨ s.lastSent < message.tick then
        (.error .invalidAck, s)
      else if s.sent.lookup message.tick = none then (.error .invalidAck, s)
      else (.ok (), advanceAck s message.tick)
    | .resync => (.ok (), { s with forceFull := true, generation := s.generation + 1 })
    | .unknown _ => (.error .invalidControl, s)

def forceFull (s : SessionState) : SessionState :=
  if s.closed then s else { s with forceFull := true, generation := s.generation + 1 }

def setQualityTier (tier : UInt8) : Except ReplicationError Unit × SessionState :=
  if s.closed then (.error .sessionNotFound, s)
  else if s.qualityTier ≠ tier then
    (.ok (), { s with qualityTier := tier, generation := s.generation + 1 })
  else (.ok (), s)

def close : SessionState :=
  { s with closed := true, sent := ∅, sentOrder := [] }

/-- `outcome` is what the `sync.Once` of the frame has decided. -/
structure Pending where
  snapshot : Snapshot
  sequence : UInt32
  generation : Nat
  full : Bool
  outcome : Option (Except ReplicationError Unit)

def Pending.commit (p : Pending) (s : SessionState) :
    Except ReplicationError Unit × Pending × SessionState :=
  match p.outcome with
  | some outcome => (outcome, p, s)
  | none =>
    let out := commitPrepared s p.snapshot p.sequence p.generation p.full
    (out.1, { p with outcome := some out.1 }, out.2)

def Pending.abort (p : Pending) : Pending :=
  match p.outcome with
  | some _ => p
  | none => { p with outcome := some (.error .preparedFrameStale) }

/-- Nothing has happened to the history; the number of the last control message may have
changed. -/
structure Untouched (s s' : SessionState) : Prop where
  info : s'.info = s.info
  sent : s'.sent = s.sent
  sentOrder : s'.sentOrder = s.sentOrder
  maxHistory : s'.maxHistory = s.maxHistory
  lastSent : s'.lastSent = s.lastSent
  ackTick : s'.ackTick = s.ackTick
  committed : s'.committed = s.committed
  controlSeq : s.controlSeq ≤ s'.controlSeq

variable (s : SessionState)

theorem Untouched.refl : Untouched s s := ⟨rfl, rfl, rfl, rfl, rfl, rfl, rfl, UInt32.le_refl _⟩

variable {s' : SessionState}

/-- What an operation can do to a session. -/
inductive Changed (s : SessionState) : SessionState → Prop
  | untouched {s' : SessionState} : Untouched s s' → Changed s s'
  | acked {s' : SessionState} {tick : UInt32} : Untouched s s' → s.sent.lookup tick ≠ none →
      tick ≤ s.lastSent → Changed s (advanceAck s' tick)
  | recorded {snapshot sequence full} : s.committed < sequence →
      Changed s (record s snapshot sequence full)
  | closed : Changed s (close s)

def numbered (s : SessionState) : SessionState :=
  { s with sequence := nextSequence s.sequence }

inductive Prepared (s : SessionState) (tick : UInt32) :
    Except ReplicationError Preparation × SessionState → Prop
  | refused : s.closed = true → Prepared s tick (.error .sessionNotFound, s)
  | delta : s.closed = false → s.forceFull = false → s.ackTick ≠ 0 →
      s.ackTick < tick → s.sent.lookup s.ackTick = some base →
        Prepared s tick (.ok (preparation (numbered s) (some base)), numbered s)
  | missing : s.closed = false → s.ackTick ≠ 0 → s.ackTick < tick →
      s.sent.lookup s.ackTick = none →
        Prepared s tick (.ok (preparation (numbered s) none), { numbered s with forceFull := true })
  | full : s.closed = false → s.forceFull = true ∨ s.ackTick = 0 ∨ tick ≤ s.ackTick →
      Prepared s tick (.ok (preparation (numbered s) none), numbered s)

variable (tick : UInt32)

theorem prepared_prepare : Prepared s tick (prepare s tick) := by
  fun_cases prepare s tick with
  | case1 hopen => exact .refused hopen
  | case2 hopen _ hdelta _ hbase =>
    exact .delta (Bool.eq_false_iff.mpr hopen) hdelta.1 hdelta.2.1 hdelta.2.2 hbase
  | case3 hopen _ hdelta hbase =>
    exact .missing (Bool.eq_false_iff.mpr hopen) hdelta.2.1 hdelta.2.2 hbase
  | case4 hopen _ hfull =>
    refine .full (Bool.eq_false_iff.mpr hopen) ?_
    by_contra hnot
    push Not at hnot
    exact hfull ⟨Bool.eq_false_iff.mpr hnot.1, hnot.2.1, UInt32.not_le.mp hnot.2.2⟩

theorem untouched_prepare : Untouched s (prepare s tick).2 := by
  fun_cases prepare s tick <;> exact ⟨rfl, rfl, rfl, rfl, rfl, rfl, rfl, UInt32.le_refl _⟩

theorem prepare_generation : (prepare s tick).2.generation = s.generation := by
  fun_cases prepare s tick <;> rfl

theorem prepare_forceFull {s} (h : s.forceFull = true) (tick : UInt32) :
    (prepare s tick).2.forceFull = true := by
  fun_cases prepare s tick with
  | case3 => rfl
  | _ => exact h

theorem prepare_eq_ok {p : Preparation} {s} {tick : UInt32} (h : (prepare s tick).1 = .ok p) :
    p = preparation (numbered s) p.base ∧ s.closed = false ∧
      ∀ base, p.base = some base → s.forceFull = false ∧ s.ackTick ≠ 0 ∧ s.ackTick < tick ∧
        s.sent.lookup s.ackTick = some base := by
  have hprepared := prepared_prepare s tick
  generalize prepare s tick = out at hprepared h
  cases hprepared with
  | refused => cases h
  | @delta _ hopen hforce hack htick hbase =>
    obtain rfl := Except.ok.inj h
    refine ⟨rfl, hopen, fun base' heq => ?_⟩
    cases heq
    exact ⟨hforce, hack, htick, hbase⟩
  | missing hopen | full hopen =>
    obtain rfl := Except.ok.inj h
    exact ⟨rfl, hopen, nofun⟩

theorem untouched_forceFull : Untouched s (forceFull s) := by
  unfold forceFull
  split <;> exact ⟨rfl, rfl, rfl, rfl, rfl, rfl, rfl, UInt32.le_refl _⟩

theorem untouched_setQualityTier (tier : UInt8) : Untouched s (setQualityTier s tier).2 := by
  fun_cases setQualityTier s tier with
  | case1 | case3 => exact .refl s
  | case2 => exact ⟨rfl, rfl, rfl, rfl, rfl, rfl, rfl, UInt32.le_refl _⟩

variable (snapshot : Snapshot) (sequence : UInt32) (full : Bool)

theorem commitPrepared_cases (generation : Nat) (full : Bool) :
    (∃ e, commitPrepared s snapshot sequence generation full = (.error e, s)) ∨
      s.closed = false ∧ generation = s.generation ∧ s.committed < sequence ∧
        commitPrepared s snapshot sequence generation full =
          (.ok (), record s snapshot sequence full) := by
  unfold commitPrepared
  split_ifs with hopen hfresh
  · exact .inl ⟨_, rfl⟩
  · exact .inl ⟨_, rfl⟩
  · push Not at hfresh
    exact .inr ⟨Bool.eq_false_iff.mpr hopen, hfresh.1, UInt32.not_le.mp hfresh.2, rfl⟩

variable (latest : UInt32)

theorem acknowledge_cases :
    (∃ e, acknowledge s tick latest = (.error e, s)) ∨
      s.closed = false ∧ tick ≠ 0 ∧ tick ≤ latest ∧ tick ≤ s.lastSent ∧
        s.sent.lookup tick ≠ none ∧ acknowledge s tick latest = (.ok (), advanceAck s tick) := by
  fun_cases acknowledge s tick latest with
  | case5 htick hopen hlast hsent =>
    push Not at htick
    exact .inr ⟨Bool.eq_false_iff.mpr hopen, htick.1, UInt32.not_lt.mp htick.2,
      UInt32.not_lt.mp hlast, hsent, rfl⟩
  | _ => exact .inl ⟨_, rfl⟩

inductive Controlled (s : SessionState) (message : ControlMessage) (latest : UInt32) :
    Except ReplicationError Unit × SessionState → Prop
  | ignored : Controlled s message latest (.error e, s)
  | refused : s.closed = false → s.controlSeq < message.sequence →
      Controlled s message latest (.error e, { s with controlSeq := message.sequence })
  | acked : s.closed = false → s.controlSeq < message.sequence → message.type = .ack →
      message.tick ≠ 0 → message.tick ≤ latest → message.tick ≤ s.lastSent →
      s.sent.lookup message.tick ≠ none →
        Controlled s message latest
          (.ok (), advanceAck { s with controlSeq := message.sequence } message.tick)
  | resynced : s.closed = false → s.controlSeq < message.sequence → message.type = .resync →
      Controlled s message latest
        (.ok (), { s with
          controlSeq := message.sequence
          forceFull := true
          generation := s.generation + 1 })

variable (message : ControlMessage)

theorem controlled_handleControl (latest : UInt32) :
    Controlled s message latest (handleControl s message latest) := by
  fun_cases handleControl s message latest with
  | case1 | case2 => exact .ignored
  | case3 hopen hsequence | case4 hopen hsequence | case7 hopen hsequence =>
    exact .refused (Bool.eq_false_iff.mpr hopen) (UInt32.not_le.mp hsequence)
  | case5 hopen hsequence _ htype htick hsent =>
    push Not at htick
    exact .acked (Bool.eq_false_iff.mpr hopen) (UInt32.not_le.mp hsequence) htype htick.1
      (UInt32.not_lt.mp htick.2.1) (UInt32.not_lt.mp htick.2.2) hsent
  | case6 hopen hsequence _ htype =>
    exact .resynced (Bool.eq_false_iff.mpr hopen) (UInt32.not_le.mp hsequence) htype

theorem changed_commitPrepared (generation : Nat) (full : Bool) :
    Changed s (commitPrepared s snapshot sequence generation full).2 := by
  rcases commitPrepared_cases s snapshot sequence generation full with ⟨e, heq⟩ | ⟨-, -, hlt, heq⟩
  · rw [heq]
    exact .untouched (.refl s)
  · rw [heq]
    exact .recorded hlt

theorem changed_acknowledge : Changed s (acknowledge s tick latest).2 := by
  rcases acknowledge_cases s tick latest with ⟨e, heq⟩ | ⟨-, -, -, hlast, hsent, heq⟩
  · rw [heq]
    exact .untouched (.refl s)
  · rw [heq]
    exact .acked (.refl s) hsent hlast

theorem changed_handleControl (latest : UInt32) : Changed s (handleControl s message latest).2 := by
  have hcontrolled := controlled_handleControl s message latest
  generalize handleControl s message latest = out at hcontrolled ⊢
  cases hcontrolled with
  | ignored => exact .untouched (.refl s)
  | refused _ hlt | resynced _ hlt =>
    exact .untouched ⟨rfl, rfl, rfl, rfl, rfl, rfl, rfl, UInt32.le_of_lt hlt⟩
  | acked _ hlt _ _ _ hlast hsent =>
    exact .acked ⟨rfl, rfl, rfl, rfl, rfl, rfl, rfl, UInt32.le_of_lt hlt⟩ hsent hlast

theorem advanceAck_info : (advanceAck s tick).info = s.info := by
  unfold advanceAck
  split <;> rfl

theorem Changed.info {s} (h : Changed s s') : s'.info = s.info := by
  cases h with
  | untouched hsame => exact hsame.info
  | acked hsame => exact (advanceAck_info _ _).trans hsame.info
  | recorded | closed => rfl

structure History (s : SessionState) : Prop where
  nodup : s.sentOrder.Nodup
  keys : ∀ tick, tick ∈ s.sentOrder ↔ tick ∈ s.sent
  length_le : s.sentOrder.length ≤ s.maxHistory
  le_lastSent : ∀ tick ∈ s.sent, tick ≤ s.lastSent
  ackTick : s.ackTick = 0 ∨ s.ackTick ≤ s.lastSent

variable {order : List UInt32} {sent : Sent}

theorem lookup_of_evict {maxHistory : Nat} {tick : UInt32} {snapshot : Snapshot}
    (h : (evict maxHistory order sent).2.lookup tick = some snapshot) :
    sent.lookup tick = some snapshot := by
  induction order generalizing sent with
  | nil => exact h
  | cons oldest rest ih =>
    unfold evict at h
    split at h
    · have herase := ih h
      rcases eq_or_ne tick oldest with rfl | heq
      · rw [lookup_erase] at herase
        cases herase
      · rwa [lookup_erase_ne heq] at herase
    · exact h

theorem evict_keys (maxHistory : Nat) (hnodup : order.Nodup)
    (hkeys : ∀ tick, tick ∈ order ↔ tick ∈ sent) :
    (evict maxHistory order sent).1.Nodup ∧
      (∀ tick, tick ∈ (evict maxHistory order sent).1 ↔ tick ∈ (evict maxHistory order sent).2) ∧
      (evict maxHistory order sent).1.length ≤ maxHistory := by
  induction order generalizing sent with
  | nil => exact ⟨hnodup, hkeys, zero_le _⟩
  | cons oldest rest ih =>
    unfold evict
    split_ifs with hfits
    · rw [nodup_cons] at hnodup
      refine ih hnodup.2 fun tick => ?_
      rw [mem_erase, ← hkeys tick, mem_cons]
      constructor
      · intro hmem
        exact ⟨fun heq => hnodup.1 (heq ▸ hmem), .inr hmem⟩
      · rintro ⟨hne, rfl | hmem⟩
        · exact absurd rfl hne
        · exact hmem
    · exact ⟨hnodup, hkeys, not_lt.mp hfits⟩

theorem History.untouched {s} (h : History s) (hsame : Untouched s s') :
    History s' where
  nodup := hsame.sentOrder ▸ h.nodup
  keys tick := by
    rw [hsame.sentOrder, hsame.sent]
    exact h.keys tick
  length_le := by
    rw [hsame.sentOrder, hsame.maxHistory]
    exact h.length_le
  le_lastSent tick htick := by
    rw [hsame.sent] at htick
    exact hsame.lastSent ▸ h.le_lastSent tick htick
  ackTick := by
    rw [hsame.ackTick, hsame.lastSent]
    exact h.ackTick

theorem History.advanceAck {s} {tick : UInt32} (h : History s) (hlast : tick ≤ s.lastSent) :
    History (advanceAck s tick) := by
  unfold ReplicationSession.advanceAck
  split
  · exact { h with ackTick := .inr hlast }
  · exact h

theorem le_record_lastSent :
    s.lastSent ≤ (record s snapshot sequence full).lastSent ∧
      snapshot.tick ≤ (record s snapshot sequence full).lastSent := by
  simp only [record]
  split_ifs with hle
  · exact ⟨UInt32.le_of_lt hle, UInt32.le_refl _⟩
  · exact ⟨UInt32.le_refl _, UInt32.not_lt.mp hle⟩

theorem lookup_record {s} {snapshot found : Snapshot} {sequence tick : UInt32} {full : Bool}
    (h : (record s snapshot sequence full).sent.lookup tick = some found) :
    tick = snapshot.tick ∧ found = snapshot ∨ s.sent.lookup tick = some found := by
  have hkept := lookup_of_evict h
  rcases eq_or_ne tick snapshot.tick with rfl | heq
  · rw [lookup_insert] at hkept
    exact .inl ⟨rfl, (some.inj hkept).symm⟩
  · rw [lookup_insert_ne heq] at hkept
    exact .inr hkept

theorem History.record {s} (h : History s) (snapshot : Snapshot) (sequence : UInt32) (full : Bool) :
    History (record s snapshot sequence full) := by
  have hkeys (tick : UInt32) :
      tick ∈ (if s.sent.lookup snapshot.tick = none then s.sentOrder ++ [snapshot.tick]
        else s.sentOrder) ↔ tick ∈ s.sent.insert snapshot.tick snapshot := by
    rw [mem_insert, ← h.keys tick]
    split_ifs with hsent
    · rw [mem_append, mem_singleton, or_comm]
    · have hmem : snapshot.tick ∈ s.sentOrder :=
        (h.keys _).mpr (lookup_isSome.mp (isSome_iff_ne_none.mpr hsent))
      exact ⟨.inr, fun hor => hor.elim (fun heq => heq ▸ hmem) id⟩
  have hnodup : (if s.sent.lookup snapshot.tick = none then s.sentOrder ++ [snapshot.tick]
      else s.sentOrder).Nodup := by
    split_ifs with hnone
    · refine h.nodup.append (nodup_singleton _) ?_
      rw [disjoint_singleton]
      rw [h.keys, ← lookup_isSome, hnone]
      nofun
    · exact h.nodup
  obtain ⟨hkeptNodup, hkeptKeys, hkeptLength⟩ := evict_keys s.maxHistory hnodup hkeys
  refine ⟨hkeptNodup, hkeptKeys, hkeptLength, ?_, ?_⟩
  · intro tick htick
    obtain ⟨found, hfound⟩ := isSome_iff_exists.mp (lookup_isSome.mpr htick)
    have hle := le_record_lastSent s snapshot sequence full
    rcases lookup_record hfound with ⟨rfl, -⟩ | hold
    · exact hle.2
    · have hmem : tick ∈ s.sent := lookup_isSome.mp (isSome_of_mem hold)
      exact UInt32.le_trans (h.le_lastSent tick hmem) hle.1
  · have hle := le_record_lastSent s snapshot sequence full
    exact h.ackTick.imp id fun hack => UInt32.le_trans hack hle.1

theorem History.changed {s} (h : History s) (hchanged : Changed s s') : History s' := by
  cases hchanged with
  | untouched hsame => exact h.untouched hsame
  | acked hsame _ hlast => exact (h.untouched hsame).advanceAck (hsame.lastSent ▸ hlast)
  | recorded => exact h.record ..
  | closed =>
    exact ⟨nodup_nil, fun tick => by simp [close], zero_le _, fun tick htick => by
      simp [close] at htick, h.ackTick⟩

theorem newSessionState_eq_ok {info s} (h : newSessionState info = .ok s) :
    s = newSession info := by
  simp only [newSessionState, bind_eq_ok, exists_unit, rejectIf_eq_ok, pure_eq_ok] at h
  exact h.2.symm

theorem history_newSession (info : SessionInfo) : History (newSession info) where
  nodup := nodup_nil
  keys tick := by simp [newSession]
  length_le := zero_le _
  le_lastSent tick htick := by simp [newSession] at htick
  ackTick := .inl rfl

structure Progress (s s' : SessionState) : Prop where
  ackTick : s.ackTick ≤ s'.ackTick
  lastSent : s.lastSent ≤ s'.lastSent
  committed : s.committed ≤ s'.committed
  controlSeq : s.controlSeq ≤ s'.controlSeq

theorem Progress.refl : Progress s s :=
  ⟨UInt32.le_refl _, UInt32.le_refl _, UInt32.le_refl _, UInt32.le_refl _⟩

theorem Progress.trans {s s''} (h : Progress s s') (h' : Progress s' s'') :
    Progress s s'' where
  ackTick := UInt32.le_trans h.ackTick h'.ackTick
  lastSent := UInt32.le_trans h.lastSent h'.lastSent
  committed := UInt32.le_trans h.committed h'.committed
  controlSeq := UInt32.le_trans h.controlSeq h'.controlSeq

theorem Untouched.progress {s} (h : Untouched s s') : Progress s s' where
  ackTick := h.ackTick ▸ UInt32.le_refl _
  lastSent := h.lastSent ▸ UInt32.le_refl _
  committed := h.committed ▸ UInt32.le_refl _
  controlSeq := h.controlSeq

theorem progress_advanceAck : Progress s (advanceAck s tick) := by
  have hrefl := Progress.refl s
  unfold advanceAck
  split_ifs with hlt
  · exact { hrefl with ackTick := UInt32.le_of_lt hlt }
  · exact hrefl

theorem Changed.progress {s} (h : Changed s s') : Progress s s' := by
  cases h with
  | untouched hsame => exact hsame.progress
  | acked hsame => exact hsame.progress.trans (progress_advanceAck _ _)
  | recorded hlt =>
    exact ⟨UInt32.le_refl _, (le_record_lastSent ..).1, UInt32.le_of_lt hlt, UInt32.le_refl _⟩
  | closed => exact { Progress.refl s with }

/-- With the frames prepared; `recorded` are the ticks of those committed. -/
structure Run where
  session : SessionState
  frames : List Pending
  recorded : List UInt32

inductive Label where
  | prepare (snapshot : Snapshot)
  | commitPrepared (i : Nat)
  | commit (i : Nat)
  | abort (i : Nat)
  | acknowledge (tick latestPublished : UInt32)
  | handleControl (message : ControlMessage) (latestPublished : UInt32)
  | forceFull
  | setQualityTier (tier : UInt8)
  | close

def pendingOf (p : Preparation) (snapshot : Snapshot) : Pending where
  snapshot := snapshot
  sequence := p.sequence
  generation := p.generation
  full := p.base.isNone
  outcome := none

def withTick (recorded : List UInt32) (tick : UInt32) :
    Except ReplicationError Unit → List UInt32
  | .ok _ => recorded ++ [tick]
  | .error _ => recorded

def next (s : Run) : Label → Option Run
  | .prepare snapshot =>
    let out := prepare s.session snapshot.tick
    match out.1 with
    | .ok p => some { s with session := out.2, frames := s.frames ++ [pendingOf p snapshot] }
    | .error _ => some { s with session := out.2 }
  | .commitPrepared i => do
      let p ← s.frames[i]?
      let out := commitPrepared s.session p.snapshot p.sequence p.generation p.full
      return { s with session := out.2, recorded := withTick s.recorded p.snapshot.tick out.1 }
  | .commit i => do
      let p ← s.frames[i]?
      let out := p.commit s.session
      return {
        session := out.2.2
        frames := s.frames.set i out.2.1
        recorded := withTick s.recorded p.snapshot.tick out.1 }
  | .abort i => do
      let p ← s.frames[i]?
      return { s with frames := s.frames.set i p.abort }
  | .acknowledge tick latest => some { s with session := (acknowledge s.session tick latest).2 }
  | .handleControl message latest =>
    some { s with session := (handleControl s.session message latest).2 }
  | .forceFull => some { s with session := forceFull s.session }
  | .setQualityTier tier => some { s with session := (setQualityTier s.session tier).2 }
  | .close => some { s with session := close s.session }

def initial (info : SessionInfo) (s : Run) : Prop :=
  newSessionState info = .ok s.session ∧ s.frames = [] ∧ s.recorded = []

@[simp] theorem advanceAck_sent : (advanceAck s tick).sent = s.sent := by
  unfold advanceAck
  split <;> rfl

theorem acknowledge_sent : (acknowledge s tick latest).2.sent = s.sent := by
  rcases acknowledge_cases s tick latest with ⟨e, heq⟩ | ⟨-, -, -, -, -, heq⟩ <;> rw [heq]
  exact advanceAck_sent s tick

theorem handleControl_sent (latest : UInt32) :
    (handleControl s message latest).2.sent = s.sent := by
  fun_cases handleControl s message latest with
  | case5 => exact advanceAck_sent _ _
  | _ => rfl

theorem advanceAck_numbers :
    (advanceAck s tick).sequence = s.sequence ∧ (advanceAck s tick).committed = s.committed := by
  unfold advanceAck
  split <;> exact ⟨rfl, rfl⟩

theorem Changed.mem_sent {s} (h : Changed s s') (hcommitted : s'.committed = s.committed) :
    ∀ tick ∈ s'.sent, tick ∈ s.sent := by
  cases h with
  | untouched hsame => exact fun tick htick => hsame.sent ▸ htick
  | acked hsame => exact fun tick htick => hsame.sent ▸ advanceAck_sent _ _ ▸ htick
  | recorded hlt => exact absurd (hcommitted ▸ hlt) (UInt32.lt_irrefl _)
  | closed => exact fun tick htick => by simp [close] at htick

/-- The steps of a run. Frames keep their numbers, also when their outcome is decided. -/
inductive Moved (s : Run) : Run → Prop
  | handed {session : SessionState} {p : Preparation} {snapshot : Snapshot} :
      Untouched s.session session → session.sequence = nextSequence s.session.sequence →
      p.sequence = nextSequence s.session.sequence →
        Moved s { s with session := session, frames := s.frames ++ [pendingOf p snapshot] }
  | committed : p ∈ s.frames → frames.map Pending.sequence = s.frames.map Pending.sequence →
        Moved s {
          session := (commitPrepared s.session p.snapshot p.sequence p.generation p.full).2
          frames := frames
          recorded := withTick s.recorded p.snapshot.tick
            (commitPrepared s.session p.snapshot p.sequence p.generation p.full).1 }
  | decided : frames.map Pending.sequence = s.frames.map Pending.sequence → s.recorded ⊆ recorded →
        Moved s ⟨s.session, frames, recorded⟩
  | operated : Changed s.session session →
      session.sequence = s.session.sequence ∧ session.committed = s.session.committed →
        Moved s { s with session := session }

variable {p : Pending}

theorem map_sequence_set {i : Nat} {q : Pending} {frames : List Pending}
    (hp : frames[i]? = some p) (h : q.sequence = p.sequence) :
    (frames.set i q).map Pending.sequence = frames.map Pending.sequence := by
  obtain ⟨hi, rfl⟩ := List.getElem?_eq_some_iff.mp hp
  have hi' : i < (frames.map Pending.sequence).length := by simpa using hi
  rw [map_set, h, ← set_getElem_self hi', set_set, getElem_map]

theorem subset_withTick (recorded : List UInt32) (tick : UInt32)
    (out : Except ReplicationError Unit) : recorded ⊆ withTick recorded tick out := by
  cases out with
  | error => exact List.Subset.refl _
  | ok => exact subset_append_left _ _

variable {l : Label}

theorem moved_next {s s' : Run} (h : next s l = some s') : Moved s s' := by
  cases l with
  | prepare snapshot =>
    have hprepared := prepared_prepare s.session snapshot.tick
    have hsame := untouched_prepare s.session snapshot.tick
    simp only [next] at h
    generalize prepare s.session snapshot.tick = out at hprepared hsame h
    cases hprepared <;> obtain rfl := some.inj h
    case refused => exact .decided rfl (List.Subset.refl _)
    all_goals exact .handed hsame rfl rfl
  | commitPrepared =>
    obtain ⟨p, hp, heq⟩ := bind_eq_some_iff.mp h
    cases heq
    exact .committed (mem_of_getElem? hp) rfl
  | commit =>
    obtain ⟨p, hp, heq⟩ := bind_eq_some_iff.mp h
    cases heq
    unfold Pending.commit
    split
    · exact .decided (map_sequence_set hp rfl) (subset_withTick ..)
    · exact .committed (mem_of_getElem? hp) (map_sequence_set hp rfl)
  | abort =>
    obtain ⟨p, hp, heq⟩ := bind_eq_some_iff.mp h
    cases heq
    refine .decided (map_sequence_set hp ?_) (List.Subset.refl _)
    unfold Pending.abort
    split <;> rfl
  | acknowledge tick latest =>
    cases h
    refine .operated (changed_acknowledge ..) ?_
    fun_cases acknowledge s.session tick latest with
    | case5 => exact advanceAck_numbers _ _
    | _ => exact ⟨rfl, rfl⟩
  | handleControl message latest =>
    cases h
    refine .operated (changed_handleControl ..) ?_
    fun_cases handleControl s.session message latest with
    | case5 => exact advanceAck_numbers _ _
    | _ => exact ⟨rfl, rfl⟩
  | forceFull =>
    cases h
    refine .operated (.untouched (untouched_forceFull _)) ?_
    unfold forceFull
    split <;> exact ⟨rfl, rfl⟩
  | setQualityTier =>
    cases h
    refine .operated (.untouched (untouched_setQualityTier ..)) ?_
    unfold setQualityTier
    split_ifs <;> exact ⟨rfl, rfl⟩
  | close =>
    cases h
    exact .operated .closed ⟨rfl, rfl⟩

theorem changed_next {s s' : Run} (h : next s l = some s') : Changed s.session s'.session := by
  cases moved_next h with
  | handed hsame => exact .untouched hsame
  | committed => exact changed_commitPrepared ..
  | decided => exact .untouched (.refl _)
  | operated hchanged => exact hchanged

open TransitionSystem in
theorem progress_run {s s' : Run} (h : Reach next (· = s) anyStep s') :
    Progress s.session s'.session := by
  induction h with
  | start heq => exact heq ▸ .refl _
  | step _ _ hnext ih => exact ih.trans (changed_next hnext).progress

theorem mem_sent_commitPrepared {s recorded} (h : ∀ tick ∈ s.sent, tick ∈ recorded) :
    ∀ tick ∈ (commitPrepared s p.snapshot p.sequence p.generation p.full).2.sent,
      tick ∈ withTick recorded p.snapshot.tick
        (commitPrepared s p.snapshot p.sequence p.generation p.full).1 := by
  intro tick htick
  rcases commitPrepared_cases s p.snapshot p.sequence p.generation p.full with
    ⟨e, heq⟩ | ⟨-, -, -, heq⟩
  · rw [heq] at htick ⊢
    exact h tick htick
  rw [heq] at htick ⊢
  obtain ⟨found, hfound⟩ := isSome_iff_exists.mp (lookup_isSome.mpr htick)
  rcases lookup_record hfound with ⟨rfl, -⟩ | hold
  · exact mem_append_right _ (mem_singleton.mpr rfl)
  · exact mem_append_left _ (h tick (lookup_isSome.mp (isSome_of_mem hold)))

theorem mem_recorded_next {s s' : Run} (h : ∀ tick ∈ s.session.sent, tick ∈ s.recorded)
    (hnext : next s l = some s') : ∀ tick ∈ s'.session.sent, tick ∈ s'.recorded := by
  cases moved_next hnext with
  | handed hsame => exact hsame.sent ▸ h
  | committed => exact mem_sent_commitPrepared h
  | decided _ hsub => exact fun tick htick => hsub (h tick htick)
  | operated hchanged hsame =>
    exact fun tick htick => h tick (hchanged.mem_sent hsame.2 tick htick)

theorem acknowledge_ok {s} {tick latest : UInt32} (h : (acknowledge s tick latest).1 = .ok ()) :
    tick ∈ s.sent := by
  rcases acknowledge_cases s tick latest with ⟨e, heq⟩ | ⟨-, -, -, -, hsent, -⟩
  · rw [heq] at h
    cases h
  · exact lookup_isSome.mp (isSome_iff_ne_none.mpr hsent)

theorem handleControl_ok {s message} {latest : UInt32}
    (h : (handleControl s message latest).1 = .ok ()) (htype : message.type = .ack) :
    message.tick ∈ s.sent := by
  have hcontrolled := controlled_handleControl s message latest
  generalize handleControl s message latest = out at hcontrolled h
  cases hcontrolled with
  | ignored | refused => cases h
  | acked _ _ _ _ _ _ hsent => exact lookup_isSome.mp (isSome_iff_ne_none.mpr hsent)
  | resynced _ _ hresync => exact absurd (htype.symm.trans hresync) nofun

theorem commit_of_decided (h : p.outcome ≠ none) (s : SessionState) : (p.commit s).2.2 = s := by
  obtain ⟨outcome, heq⟩ := ne_none_iff_exists'.mp h
  simp only [Pending.commit, heq]

theorem abort_outcome (p : Pending) : p.abort.outcome ≠ none := by
  unfold Pending.abort
  split
  · rename_i outcome heq
    rw [heq]
    exact nofun
  · exact nofun

section Reachable

open TransitionSystem

variable {info : SessionInfo} {s s' : Run}

theorem history_reach (h : Reach next (initial info) anyStep s) : History s.session := by
  induction h with
  | start hinit =>
    rw [newSessionState_eq_ok hinit.1]
    exact history_newSession info
  | step _ _ hnext ih => exact ih.changed (changed_next hnext)

theorem mem_recorded_reach (h : Reach next (initial info) anyStep s) :
    ∀ tick ∈ s.session.sent, tick ∈ s.recorded := by
  induction h with
  | start hinit =>
    intro tick htick
    rw [newSessionState_eq_ok hinit.1] at htick
    simp [newSession] at htick
  | step _ _ hnext ih => exact mem_recorded_next ih hnext

/-- The history of a session: its counters do not go back, only ticks of committed frames can be
acknowledged, and frames that are not committed leave it alone. -/
theorem session_history (h : Reach next (initial info) anyStep s) :
    (s.session.sentOrder.Nodup ∧ (∀ tick, tick ∈ s.session.sentOrder ↔ tick ∈ s.session.sent) ∧
        s.session.sentOrder.length ≤ s.session.maxHistory ∧
        (∀ tick ∈ s.session.sent, tick ≤ s.session.lastSent) ∧
        (s.session.ackTick = 0 ∨ s.session.ackTick ≤ s.session.lastSent)) ∧
      (∀ s', Reach next (· = s) anyStep s' → Progress s.session s'.session) ∧
      (∀ tick latest, (acknowledge s.session tick latest).1 = .ok () → tick ∈ s.recorded) ∧
      (∀ message latest, (handleControl s.session message latest).1 = .ok () →
        message.type = .ack → message.tick ∈ s.recorded) ∧
      (∀ tick, let s' := (prepare s.session tick).2
        s'.sent = s.session.sent ∧ s'.lastSent = s.session.lastSent ∧
          s'.ackTick = s.session.ackTick) ∧
      (∀ p : Pending, (p.abort.commit s.session).2.2 = s.session) ∧
      ∀ snapshot sequence generation full e,
        (commitPrepared s.session snapshot sequence generation full).1 = .error e →
          (commitPrepared s.session snapshot sequence generation full).2 = s.session := by
  have hhistory := history_reach h
  have hrecorded := mem_recorded_reach h
  refine ⟨⟨hhistory.nodup, hhistory.keys, hhistory.length_le, hhistory.le_lastSent,
    hhistory.ackTick⟩, fun s' => progress_run, ?_, ?_, ?_, ?_, ?_⟩
  · exact fun tick latest hok => hrecorded tick (acknowledge_ok hok)
  · exact fun message latest hok htype => hrecorded message.tick (handleControl_ok hok htype)
  · intro tick
    have hsame := untouched_prepare s.session tick
    exact ⟨hsame.sent, hsame.lastSent, hsame.ackTick⟩
  · intro p
    exact commit_of_decided (abort_outcome p) s.session
  · intro snapshot sequence generation full e herror
    rcases commitPrepared_cases s.session snapshot sequence generation full with
      ⟨e', heq⟩ | ⟨-, -, -, heq⟩
    · rw [heq]
    · rw [heq] at herror
      cases herror

theorem initial_newSession :
    initial ⟨1, 0, 0, 0⟩ ⟨newSession ⟨1, 0, 0, 0⟩, [], []⟩ := ⟨rfl, rfl, rfl⟩

theorem session_history_one_frame :
    ∃ s, Reach next (initial ⟨1, 0, 0, 0⟩) anyStep s ∧ s.recorded = [3] ∧
      s.session.sentOrder = [3] ∧ s.session.ackTick = 3 ∧
      s.session.sentOrder.length ≤ s.session.maxHistory ∧
      ∀ tick latest, (acknowledge s.session tick latest).1 = .ok () → tick ∈ s.recorded := by
  refine exists_reach_imp (P := fun s => s.recorded = [3] ∧ s.session.sentOrder = [3] ∧
    s.session.ackTick = 3)
    (exists_of_anyRun initial_newSession
      [.prepare ⟨⟨1, 1, 3, 1⟩, []⟩, .commit 0, .acknowledge 3 3] (by decide +kernel)) ?_
  rintro s hreach ⟨hrecorded, horder, htick⟩
  obtain ⟨hhistory, -, hack, -⟩ := session_history hreach
  exact ⟨hrecorded, horder, htick, hhistory.2.2.1, hack⟩

theorem toNat_nextSequence {sequence : UInt32} (h : sequence.toNat + 1 < 2 ^ 32) :
    (nextSequence sequence).toNat = sequence.toNat + 1 := by
  have hadd : (sequence + 1).toNat = sequence.toNat + 1 := by
    exact mod_eq_of_lt h
  unfold nextSequence
  rw [if_neg, hadd]
  intro hzero
  rw [hzero] at hadd
  exact absurd hadd (by simp)

def numbersOf (s : Run) : List UInt32 :=
  s.session.committed :: s.frames.map Pending.sequence

theorem numbersOf_next (h : next s l = some s') :
    (s'.session.sequence = s.session.sequence ∧ numbersOf s' ⊆ numbersOf s) ∨
      s'.session.sequence = nextSequence s.session.sequence ∧
        numbersOf s' ⊆ nextSequence s.session.sequence :: numbersOf s := by
  cases moved_next h with
  | handed hsame hsequence hp =>
    refine .inr ⟨hsequence, ?_⟩
    simp [numbersOf, pendingOf, hsame.committed, hp]
  | @committed p _ hp hframes =>
    rcases commitPrepared_cases s.session p.snapshot p.sequence p.generation p.full with
      ⟨e, heq⟩ | ⟨-, -, -, heq⟩ <;> simp only [heq, numbersOf, hframes]
    · exact .inl ⟨trivial, List.Subset.refl _⟩
    · refine .inl ⟨rfl, cons_subset.mpr ⟨?_, subset_cons_self _ _⟩⟩
      exact mem_cons_of_mem _ (mem_map_of_mem hp)
  | decided hframes => exact .inl ⟨rfl, by simp [numbersOf, hframes]⟩
  | operated _ hsame => exact .inl ⟨hsame.1, by simp [numbersOf, hsame.2]⟩

/-- The counter has not come to its end. -/
def unwrapped (s : Run) (_ : Label) : Prop := s.session.sequence.toNat + 1 < 2 ^ 32

theorem le_sequence (h : Reach next (initial info) unwrapped s) :
    ∀ n ∈ numbersOf s, n ≤ s.session.sequence := by
  induction h with
  | start hinit =>
    obtain ⟨hsession, hframes, -⟩ := hinit
    rw [numbersOf, newSessionState_eq_ok hsession, hframes]
    exact fun n hn => mem_singleton.mp hn ▸ UInt32.le_refl _
  | @step s s' l _ hend hnext ih =>
    have hnumber := toNat_nextSequence hend
    intro n hn
    rcases numbersOf_next hnext with ⟨hsequence, hsub⟩ | ⟨hsequence, hsub⟩ <;> rw [hsequence]
    · exact ih n (hsub hn)
    rcases mem_cons.mp (hsub hn) with rfl | hold
    · exact UInt32.le_refl _
    · have := UInt32.le_iff_toNat_le.mp (ih n hold)
      exact UInt32.le_iff_toNat_le.mpr (by omega)

theorem commitPrepared_of_generation (state : SessionState) (hopen : state.closed = false)
    (snapshot : Snapshot) (sequence : UInt32) (full : Bool) :
    (commitPrepared state snapshot sequence state.generation full).1 =
      if sequence ≤ state.committed then .error .preparedFrameStale else .ok () := by
  rw [commitPrepared, if_neg (by simp [hopen])]
  simp only [ne_eq, not_true_eq_false, false_or]
  split <;> rfl

theorem commitPrepared_prepare {state : SessionState} (hopen : state.closed = false)
    (tick : UInt32) (snapshot : Snapshot) :
    ∃ p state', prepare state tick = (.ok p, state') ∧
      (commitPrepared state' snapshot p.sequence p.generation p.fullRefresh).1 =
        if nextSequence state.sequence ≤ state.committed then .error .preparedFrameStale
        else .ok () := by
  have hprepared := prepared_prepare state tick
  generalize prepare state tick = out at hprepared ⊢
  cases hprepared with
  | refused hclosed => exact absurd (hopen.symm.trans hclosed) (by simp)
  | delta | full => exact ⟨_, _, rfl, commitPrepared_of_generation (numbered state) hopen ..⟩
  | missing =>
    exact ⟨_, _, rfl,
      commitPrepared_of_generation { numbered state with forceFull := true } hopen ..⟩

/-- Until the counter has wrapped, a session takes the frame it has just prepared. -/
theorem commit_after_prepare (h : Reach next (initial info) unwrapped s)
    (hopen : s.session.closed = false) (hend : s.session.sequence.toNat + 1 < 2 ^ 32)
    (tick : UInt32) (snapshot : Snapshot) :
    ∃ p state', prepare s.session tick = (.ok p, state') ∧
      (commitPrepared state' snapshot p.sequence p.generation p.fullRefresh).1 = .ok () := by
  obtain ⟨p, state', hp, hcommit⟩ := commitPrepared_prepare hopen tick snapshot
  have hcommitted := UInt32.le_iff_toNat_le.mp (le_sequence h _ mem_cons_self)
  have hnumber := toNat_nextSequence hend
  refine ⟨p, state', hp, ?_⟩
  rw [hcommit, if_neg]
  rw [UInt32.le_iff_toNat_le]
  omega

theorem commit_after_prepare_later :
    ∃ s, Reach next (initial ⟨1, 0, 0, 0⟩) unwrapped s ∧
      (s.session.committed = 1 ∧ s.session.sequence = 3 ∧ s.session.closed = false) ∧
      ∃ p state', prepare s.session 4 = (.ok p, state') ∧
        (commitPrepared state' ⟨⟨1, 1, 4, 1⟩, []⟩ p.sequence p.generation p.fullRefresh).1 =
          .ok () := by
  refine exists_reach_imp (exists_of_run initial_newSession
    (fun s _ => decide (s.session.sequence.toNat + 1 < 2 ^ 32)) [.prepare ⟨⟨1, 1, 1, 1⟩, []⟩,
      .commit 0, .prepare ⟨⟨1, 1, 2, 1⟩, []⟩, .prepare ⟨⟨1, 1, 3, 1⟩, []⟩]
    (fun _ _ _ => of_decide_eq_true) (by decide +kernel)) fun s h hs => ⟨hs, ?_⟩
  exact commit_after_prepare h hs.2.2 (by rw [hs.2.1]; decide) 4 _

theorem exists_sequence {n : Nat} (hpos : 1 ≤ n) (hn : n < 2 ^ 32) :
    ∃ s, Reach next (initial ⟨1, 0, 0, 0⟩) anyStep s ∧ s.session.closed = false ∧
      s.session.committed = 1 ∧ s.session.sequence.toNat = n := by
  induction n, hpos using le_induction with
  | base =>
    exact exists_of_anyRun initial_newSession [.prepare ⟨⟨1, 1, 1, 1⟩, []⟩, .commit 0]
      (by decide +kernel)
  | succ n _ ih =>
    obtain ⟨s, hreach, hopen, hcommitted, hsequence⟩ := ih (by omega)
    obtain ⟨p, state', hp, -⟩ := commitPrepared_prepare hopen 2 ⟨⟨1, 1, 2, 1⟩, []⟩
    have hnext : next s (.prepare ⟨⟨1, 1, 2, 1⟩, []⟩) = some { s with
        session := state', frames := s.frames ++ [pendingOf p ⟨⟨1, 1, 2, 1⟩, []⟩] } := by
      simp only [next, hp]
    have hprepared := prepared_prepare s.session 2
    rw [hp] at hprepared
    have hnumber := toNat_nextSequence (show s.session.sequence.toNat + 1 < 2 ^ 32 by omega)
    refine ⟨_, hreach.step trivial hnext, ?_⟩
    rw [← hsequence, ← hnumber]
    cases hprepared <;> exact ⟨hopen, hcommitted, rfl⟩

/-- When the counter has wrapped, a number that was committed before is handed out again. -/
theorem stale_after_wrap :
    ∃ s, Reach next (initial ⟨1, 0, 0, 0⟩) anyStep s ∧ s.session.closed = false ∧
      ∃ p state', prepare s.session 2 = (.ok p, state') ∧
        (commitPrepared state' ⟨⟨1, 1, 2, 1⟩, []⟩ p.sequence p.generation p.fullRefresh).1 =
          .error .preparedFrameStale := by
  obtain ⟨s, hreach, hopen, hcommitted, hsequence⟩ := exists_sequence (n := 2 ^ 32 - 1) (by omega)
    (by omega)
  obtain ⟨p, state', hp, hcommit⟩ := commitPrepared_prepare hopen 2 ⟨⟨1, 1, 2, 1⟩, []⟩
  refine ⟨s, hreach, hopen, p, state', hp, ?_⟩
  have hlast : s.session.sequence = 4294967295 := UInt32.toNat_inj.mp hsequence
  rw [hcommit, hlast, hcommitted]
  decide

end Reachable

end CubeCore.ReplicationSession
