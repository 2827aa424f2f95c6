import CubeCore.SubjectSync
import CubeCore.TransitionSystem

namespace CubeCore.DirtyMarks

open SubjectSync TransitionSystem List Nat

/-- A call that has won the CAS on `finished` and not yet locked `mu`. -/
inductive Finish where
  | commit
  | abort (cause : Option SyncError)
deriving DecidableEq

structure Handle (P : Type) where
  prepared : PreparedSubjectSync P
  finished : Bool
  call : Option Finish

structure Mark where
  time : Nat
  bits : BitVec 64
  full : Bool

structure Started where
  time : Nat
  ticket : Ticket

/-- Ghost data: the number of steps, the marks, the prepares that started, the tokens of those not
ended, and of the committed ones. -/
structure Marked (P : Type) where
  state : SubjectSyncState
  packing : Option (Ticket × List SyncProfile)
  handles : List (Handle P)
  clock : Nat
  marks : List Mark
  started : List Started
  inflight : List Nat
  committed : List Nat

inductive Call (P : Type) where
  | markDirty (mask : BitVec 64)
  | markFullDirty (reason : BitVec 32)
  | prepare (profiles : List SyncProfile)
  | packed (packer : SubjectSyncPacker P)
  | packPanics
  | commit (i : Nat)
  | abort (i : Nat) (cause : Option SyncError)
  | finish (i : Nat)

variable {P : Type}

def Handle.take (h : Handle P) (call : Finish) : Handle P :=
  if h.finished then h else { h with finished := true, call := some call }

def next (s : Marked P) (c : Call P) : Option (Marked P) :=
  let s := { s with clock := s.clock + 1 }
  match c with
  | .markDirty mask =>
    -- a mark without bits returns before it locks `mu`
    if mask = 0 then some s
    else
      some { s with
        state := s.state.markDirty mask
        marks := ⟨s.clock, mask, false⟩ :: s.marks }
  | .markFullDirty reason =>
    some { s with
      state := s.state.markFullDirty reason
      marks := ⟨s.clock, 0, true⟩ :: s.marks }
  | .prepare profiles =>
    match s.packing with
    | some _ => none
    | none =>
      match s.state.startPrepare with
      | (state, .error _) => some { s with state := state }
      | (state, .ok t) =>
        some { s with
          state := state
          packing := some (t, normalizeSyncProfiles profiles)
          started := ⟨s.clock, t⟩ :: s.started
          inflight := t.token :: s.inflight }
  | .packed packer =>
    match s.packing with
    | none => none
    | some (t, profiles) =>
      match t.updates packer profiles with
      | .error (_, err) =>
        some { s with
          state := s.state.failPrepare t.token (.cause err)
          packing := none
          inflight := s.inflight.erase t.token }
      | .ok updates =>
        some { s with
          packing := none
          handles := s.handles ++ [⟨t.prepared updates, false, none⟩] }
  | .packPanics =>
    -- `prepareMu` is released, the token stays
    match s.packing with
    | none => none
    | some _ => some { s with packing := none }
  | .commit i =>
    match s.handles[i]? with
    | none => none
    | some h => some { s with handles := s.handles.set i (h.take .commit) }
  | .abort i cause =>
    match s.handles[i]? with
    | none => none
    | some h => some { s with handles := s.handles.set i (h.take (.abort cause)) }
  | .finish i =>
    match s.handles[i]? with
    | none => none
    | some h =>
      match h.call with
      | none => none
      | some .commit =>
        match s.state.commit h.prepared with
        | (state, some _) =>
          some { s with
            state := state
            handles := s.handles.set i { h with call := none }
            inflight := s.inflight.erase h.prepared.token }
        | (state, none) =>
          some { s with
            state := state
            handles := s.handles.set i { h with call := none }
            inflight := s.inflight.erase h.prepared.token
            committed := h.prepared.token :: s.committed }
      | some (.abort cause) =>
        some { s with
          state := (s.state.abort h.prepared cause).1
          handles := s.handles.set i { h with call := none }
          inflight := s.inflight.erase h.prepared.token }

def initial (subject : Subject) (packer : Bool) : Marked P where
  state := newSubjectSyncState subject packer
  packing := none
  handles := []
  clock := 0
  marks := []
  started := []
  inflight := []
  committed := []

/-- All bits of a mark are in a mask, or all content is. -/
def Within (bits : BitVec 64) (full : Bool) (mask : BitVec 64) (all : Bool) : Prop :=
  all = true ∨ (full = false ∧ ∀ i, bits.getLsbD i = true → mask.getLsbD i = true)

def Pending (s : Marked P) (m : Mark) : Prop :=
  Within m.bits m.full s.state.dirtyMask s.state.fullDirty

def Covered (s : Marked P) (m : Mark) : Prop :=
  ∃ st ∈ s.started, st.ticket.token ∈ s.committed ∧ m.time < st.time ∧
    Within m.bits m.full st.ticket.mask st.ticket.full

/-- The marks before the prepare in flight are covered or in its ticket; a later one has moved the
generation. -/
structure Captured (s : Marked P) (st : Started) : Prop where
  base : st.ticket.baseVersion = s.state.version
  generation : st.ticket.generation ≤ s.state.dirtyGeneration
  earlier : ∀ m ∈ s.marks, m.time < st.time →
    Covered s m ∨ Within m.bits m.full st.ticket.mask st.ticket.full
  later : s.state.dirtyGeneration = st.ticket.generation → ∀ m ∈ s.marks, m.time < st.time

structure Kept (s : Marked P) : Prop where
  enabled : s.state.enabled = true
  version : s.state.version = s.committed.length
  past : ∀ m ∈ s.marks, m.time ≤ s.clock
  pastStarts : ∀ st ∈ s.started, st.time ≤ s.clock
  marks : ∀ m ∈ s.marks, Pending s m ∨ Covered s m
  tokens : ∀ st ∈ s.started, 0 < st.ticket.token ∧ st.ticket.token ≤ s.state.nextToken
  inflight : s.inflight = if s.state.inflightToken = 0 then [] else [s.state.inflightToken]
  captured : ∀ st ∈ s.started, st.ticket.token = s.state.inflightToken → Captured s st

/-- Every prepare that is packing or was returned has started. -/
structure Wired (s : Marked P) : Prop where
  succ : ∀ st ∈ s.started, st.ticket.version = st.ticket.baseVersion + 1
  packing : ∀ t profiles, s.packing = some (t, profiles) → ∃ st ∈ s.started, st.ticket = t
  handles : ∀ h ∈ s.handles, ∃ st ∈ s.started, ∃ updates, h.prepared = st.ticket.prepared updates

inductive Change (s : Marked P) : Marked P → Prop where
  | other : Change s
        { s with
          state := { s.state with lastError := e }
          packing := packing
          handles := handles
          clock := s.clock + 1 }
  | dirty (hmask : mask ≠ 0) : Change s
        { s with
          state := s.state.markDirty mask
          clock := s.clock + 1
          marks := ⟨s.clock + 1, mask, false⟩ :: s.marks }
  | full : Change s
        { s with
          state := s.state.markFullDirty reason
          clock := s.clock + 1
          marks := ⟨s.clock + 1, 0, true⟩ :: s.marks }
  | started (hfree : s.state.inflightToken = 0) : Change s
        { s with
          state :=
            { s.state with
              nextToken := s.state.nextToken + 1
              inflightToken := s.state.nextToken + 1 }
          packing := some (s.state.ticket, profiles)
          clock := s.clock + 1
          started := ⟨s.clock + 1, s.state.ticket⟩ :: s.started
          inflight := (s.state.nextToken + 1) :: s.inflight }
  | dropped (token : Nat) : Change s
        { s with
          state :=
            { s.state with
              inflightToken := if s.state.inflightToken = token then 0 else s.state.inflightToken
              lastError := e }
          packing := packing
          handles := handles
          clock := s.clock + 1
          inflight := s.inflight.erase token }
  | clean (hst : st ∈ s.started) (htoken : s.state.inflightToken = st.ticket.token)
      (hgen : s.state.dirtyGeneration = st.ticket.generation) :
      Change s
        { s with
          state :=
            { s.state with
              version := s.state.version + 1
              dirtyMask := 0
              fullDirty := false
              fullReason := syncFullReasonNone
              inflightToken := 0
              lastError := none }
          handles := handles
          clock := s.clock + 1
          inflight := s.inflight.erase st.ticket.token
          committed := st.ticket.token :: s.committed }
  | stillDirty (hst : st ∈ s.started) (htoken : s.state.inflightToken = st.ticket.token) : Change s
        { s with
          state :=
            { s.state with version := s.state.version + 1, inflightToken := 0, lastError := none }
          handles := handles
          clock := s.clock + 1
          inflight := s.inflight.erase st.ticket.token
          committed := st.ticket.token :: s.committed }

section Steps

variable {s s' : Marked P} {c : Call P}

theorem Wired.set_handle (hw : Wired s) {i : Nat} {h h' : Handle P} (hget : s.handles[i]? = some h)
    (hsame : h'.prepared = h.prepared) :
    ∀ k ∈ s.handles.set i h',
      ∃ st ∈ s.started, ∃ updates, k.prepared = st.ticket.prepared updates := by
  intro k hk
  rcases mem_or_eq_of_mem_set hk with hold | rfl
  · exact hw.handles k hold
  · rw [hsame]
    exact hw.handles h (mem_of_getElem? hget)

theorem take_prepared (h : Handle P) (call : Finish) : (h.take call).prepared = h.prepared := by
  unfold Handle.take
  split <;> rfl

theorem change_finish (hw : Wired s) (hstep : next s (.finish i) = some s') :
    Wired s' ∧ Change s s' := by
  simp only [next] at hstep
  cases hget : s.handles[i]? with
  | none =>
    rw [hget] at hstep
    cases hstep
  | some h =>
    rw [hget] at hstep
    obtain ⟨st, hst, updates, hprepared⟩ := hw.handles h (mem_of_getElem? hget)
    have htoken : h.prepared.token = st.ticket.token := by rw [hprepared]; rfl
    have hset := @Wired.set_handle _ _ hw _ _ { h with call := none } hget rfl
    dsimp only at hstep
    cases hcall : h.call with
    | none =>
      rw [hcall] at hstep
      cases hstep
    | some call =>
      rw [hcall] at hstep
      cases call with
      | commit =>
        have hcommitted := committed_commit s.state h.prepared
        revert hstep hcommitted
        generalize s.state.commit h.prepared = r
        intro hstep hcommitted
        have hsucc : s.state.version = h.prepared.baseVersion →
            h.prepared.version = s.state.version + 1 := by
          intro hversion
          rw [hversion, hprepared]
          exact hw.succ st hst
        cases hcommitted with
        | stale =>
          cases hstep
          exact ⟨⟨hw.succ, hw.packing, hset⟩, .dropped h.prepared.token⟩
        | clean _ hlive hversion hgen =>
          cases hstep
          refine ⟨⟨hw.succ, hw.packing, hset⟩, ?_⟩
          rw [hsucc hversion, htoken]
          refine .clean hst (hlive.trans htoken) (hgen.trans ?_)
          rw [hprepared]
          rfl
        | dirty _ hlive hversion =>
          cases hstep
          refine ⟨⟨hw.succ, hw.packing, hset⟩, ?_⟩
          rw [hsucc hversion, htoken]
          exact .stillDirty hst (hlive.trans htoken)
      | abort cause =>
        cases hstep
        refine ⟨⟨hw.succ, hw.packing, hset⟩, ?_⟩
        obtain ⟨e, habort⟩ := abort_fst s.state h.prepared cause
        rw [habort]
        exact .dropped h.prepared.token

theorem change_next (hw : Wired s) (hstep : next s c = some s') : Wired s' ∧ Change s s' := by
  have htaken : ∀ {i : Nat} {h : Handle P} {call : Finish}, s.handles[i]? = some h →
      Wired { s with handles := s.handles.set i (h.take call), clock := s.clock + 1 } := by
    intro i h call hget
    exact ⟨hw.succ, hw.packing, hw.set_handle hget (take_prepared h _)⟩
  cases c with
  | markDirty =>
    simp only [next] at hstep
    split_ifs at hstep with hmask
    · cases hstep
      exact ⟨⟨hw.succ, hw.packing, hw.handles⟩, .other⟩
    · cases hstep
      exact ⟨⟨hw.succ, hw.packing, hw.handles⟩, .dirty hmask⟩
  | markFullDirty =>
    cases hstep
    exact ⟨⟨hw.succ, hw.packing, hw.handles⟩, .full⟩
  | prepare profiles =>
    simp only [next] at hstep
    split at hstep
    · cases hstep
    split at hstep
    · rename_i hstart
      cases hstep
      refine ⟨⟨hw.succ, hw.packing, hw.handles⟩, ?_⟩
      obtain ⟨e, rfl⟩ := startPrepare_error hstart
      exact .other
    rename_i hstart
    cases hstep
    obtain ⟨-, hfree, rfl, rfl⟩ := startPrepare_ok hstart
    refine ⟨⟨?_, ?_, fun h hh => ?_⟩, .started hfree⟩
    · rw [forall_mem_cons]
      exact ⟨rfl, hw.succ⟩
    · rintro t profiles hpacking
      cases hpacking
      exact ⟨_, .head _, rfl⟩
    · obtain ⟨st, hst, hprepared⟩ := hw.handles h hh
      exact ⟨st, .tail _ hst, hprepared⟩
  | packed =>
    simp only [next] at hstep
    split at hstep
    · cases hstep
    rename_i t profiles hpacking
    split at hstep
    · cases hstep
      exact ⟨⟨hw.succ, nofun, hw.handles⟩, .dropped t.token⟩
    rename_i updates _
    cases hstep
    refine ⟨⟨hw.succ, nofun, ?_⟩, .other⟩
    rw [forall_mem_append, forall_mem_singleton]
    obtain ⟨st, hst, rfl⟩ := hw.packing t profiles hpacking
    exact ⟨hw.handles, st, hst, updates, rfl⟩
  | packPanics =>
    simp only [next] at hstep
    split at hstep
    · cases hstep
    · cases hstep
      exact ⟨⟨hw.succ, nofun, hw.handles⟩, .other⟩
  | commit | abort =>
    simp only [next] at hstep
    split at hstep
    · cases hstep
    · rename_i hget
      cases hstep
      exact ⟨htaken hget, .other⟩
  | finish => exact change_finish hw hstep

end Steps

section Keeping

variable {s s' : Marked P} {m : Mark}

theorem Covered.mono (h : Covered s m) (hstarted : ∀ st ∈ s.started, st ∈ s'.started)
    (hcommitted : ∀ t ∈ s.committed, t ∈ s'.committed) : Covered s' m := by
  obtain ⟨st, hst, htoken, htime, hwithin⟩ := h
  exact ⟨st, hstarted st hst, hcommitted _ htoken, htime, hwithin⟩

theorem Within.or {bits} {full all : Bool} (h : Within bits full mask all) :
    Within bits full (mask ||| mask') all := by
  rcases h with hall | ⟨hfull, hbits⟩
  · exact .inl hall
  · refine .inr ⟨hfull, fun i hi => ?_⟩
    rw [BitVec.getLsbD_or, hbits i hi, Bool.true_or]

theorem Kept.inflight_erase (h : Kept s) (token : Nat) :
    s.inflight.erase token =
      if (if s.state.inflightToken = token then 0 else s.state.inflightToken) = 0 then []
      else [if s.state.inflightToken = token then 0 else s.state.inflightToken] := by
  rw [h.inflight]
  by_cases hzero : s.state.inflightToken = 0
  · simp [hzero]
  · rcases eq_or_ne s.state.inflightToken token with rfl | htoken
    · simp [hzero]
    · simp [hzero, htoken]

theorem Kept.not_inflight (h : Kept s) (hst : st ∈ s.started) :
    st.ticket.token ≠ 0 :=
  (h.tokens st hst).1.ne'

theorem Kept.commit (h : Kept s) (hst : st ∈ s.started)
    (htoken : s.state.inflightToken = st.ticket.token) {handles : List (Handle P)}
    (henabled : state.enabled = s.state.enabled) (hversion : state.version = s.state.version + 1)
    (hnext : state.nextToken = s.state.nextToken) (hinflight : state.inflightToken = 0)
    (hmarks : ∀ m ∈ s.marks,
      Within m.bits m.full state.dirtyMask state.fullDirty ∨ Covered s m ∨
        m.time < st.time ∧ Within m.bits m.full st.ticket.mask st.ticket.full) :
    Kept
      { s with
        state := state
        handles := handles
        clock := s.clock + 1
        inflight := s.inflight.erase st.ticket.token
        committed := st.ticket.token :: s.committed } := by
  refine ⟨henabled.trans h.enabled, ?_, fun m hm => le_succ_of_le (h.past m hm),
    fun st hst => le_succ_of_le (h.pastStarts st hst), ?_, ?_, ?_, ?_⟩
  · rw [hversion, h.version]
    rfl
  · intro m hm
    rcases hmarks m hm with hpending | hcovered | ⟨htime, hwithin⟩
    · exact .inl hpending
    · exact .inr (hcovered.mono (fun _ => id) fun _ => .tail _)
    · exact .inr ⟨st, hst, .head _, htime, hwithin⟩
  · intro st hst
    rw [hnext]
    exact h.tokens st hst
  · rw [h.inflight_erase, if_pos htoken, if_pos rfl, if_pos hinflight]
  · intro other hother hzero
    rw [hinflight] at hzero
    exact absurd hzero (h.not_inflight hother)

theorem Captured.mark {st : Started} (h : Captured s st) (hstart : st.time ≤ s.clock) {state}
    (hversion : state.version = s.state.version)
    (hgen : state.dirtyGeneration = s.state.dirtyGeneration + 1) (hm : m.time = s.clock + 1) :
    Captured { s with state := state, clock := s.clock + 1, marks := m :: s.marks } st := by
  have hle := h.generation
  refine ⟨h.base.trans hversion.symm, ?_, fun m' hm' htime => ?_, fun heq => ?_⟩
  · dsimp only
    omega
  · rcases mem_cons.mp hm' with rfl | hold
    · omega
    · exact h.earlier m' hold htime
  · dsimp only at heq
    omega

theorem kept_change (h : Kept s) (hchange : Change s s') : Kept s' := by
  have hpast : ∀ m ∈ s.marks, m.time ≤ s.clock + 1 := fun m hm => le_succ_of_le (h.past m hm)
  have hpastStarts : ∀ st ∈ s.started, st.time ≤ s.clock + 1 :=
    fun st hst => le_succ_of_le (h.pastStarts st hst)
  cases hchange with
  | other =>
    refine ⟨h.enabled, h.version, hpast, hpastStarts, h.marks, h.tokens, h.inflight, ?_⟩
    intro st hst htoken
    exact { h.captured st hst htoken with }
  | @dirty mask hmask =>
    have hdirty : s.state.markDirty mask =
        { s.state with
          dirtyMask := s.state.dirtyMask ||| mask
          dirtyGeneration := s.state.dirtyGeneration + 1 } := by
      rw [SubjectSyncState.markDirty, if_neg hmask, if_pos h.enabled]
    rw [hdirty]
    refine ⟨h.enabled, h.version, ?_, hpastStarts, ?_, h.tokens, h.inflight, ?_⟩
    · rw [forall_mem_cons]
      exact ⟨le_refl _, hpast⟩
    · intro m hm
      rcases mem_cons.mp hm with rfl | hold
      · refine .inl (.inr ⟨rfl, fun i hi => ?_⟩)
        rw [BitVec.getLsbD_or, hi, Bool.or_true]
      · exact (h.marks m hold).imp Within.or id
    · intro st hst htoken
      exact (h.captured st hst htoken).mark (h.pastStarts st hst) rfl rfl rfl
  | @full reason =>
    have hdirty : s.state.markFullDirty reason =
        { s.state with
          fullDirty := true
          fullReason := if reason = syncFullReasonNone then syncFullReasonDirty else reason
          dirtyMask := 0
          dirtyGeneration := s.state.dirtyGeneration + 1 } := by
      rw [SubjectSyncState.markFullDirty, if_pos h.enabled]
    rw [hdirty]
    refine ⟨h.enabled, h.version, ?_, hpastStarts, fun _ _ => .inl (.inl rfl), h.tokens,
      h.inflight, ?_⟩
    · rw [forall_mem_cons]
      exact ⟨le_refl _, hpast⟩
    · intro st hst htoken
      exact (h.captured st hst htoken).mark (h.pastStarts st hst) rfl rfl rfl
  | started hfree =>
    have hmono : ∀ m, Covered s m → ∀ {s'' : Marked P}, s''.committed = s.committed →
        s''.started = ⟨s.clock + 1, s.state.ticket⟩ :: s.started → Covered s'' m := by
      intro m hcovered s'' hcommitted hstarted
      exact hcovered.mono (by rw [hstarted]; exact fun _ => .tail _)
        (by rw [hcommitted]; exact fun _ => id)
    refine ⟨h.enabled, h.version, hpast, ?_, ?_, ?_, ?_, ?_⟩
    · rw [forall_mem_cons]
      exact ⟨le_refl _, hpastStarts⟩
    · intro m hm
      exact (h.marks m hm).imp id fun hcovered => hmono m hcovered rfl rfl
    · rw [forall_mem_cons]
      exact ⟨⟨succ_pos _, le_refl _⟩, fun st hst => (h.tokens st hst).imp_right le_succ_of_le⟩
    · rw [h.inflight, if_pos hfree, if_neg (succ_ne_zero _)]
    · intro st hst htoken
      rcases mem_cons.mp hst with rfl | hold
      · refine ⟨rfl, le_refl _, fun m hm _ => ?_, fun _ m hm => ?_⟩
        · exact (h.marks m hm).symm.imp (fun hcovered => hmono m hcovered rfl rfl) id
        · exact lt_succ_of_le (h.past m hm)
      · have hle := (h.tokens st hold).2
        dsimp only at htoken
        omega
  | dropped token =>
    refine ⟨h.enabled, h.version, hpast, hpastStarts, h.marks, h.tokens, h.inflight_erase token, ?_⟩
    intro st hst htoken
    split at htoken
    · exact absurd htoken (h.not_inflight hst)
    · exact { h.captured st hst htoken with }
  | @clean st _ hst htoken hgen =>
    have hcaptured := h.captured st hst htoken.symm
    refine h.commit hst htoken rfl rfl rfl rfl fun m hm => ?_
    have htime := hcaptured.later hgen m hm
    exact .inr ((hcaptured.earlier m hm htime).imp id fun hwithin => ⟨htime, hwithin⟩)
  | stillDirty hst htoken =>
    refine h.commit hst htoken rfl rfl rfl rfl fun m hm => ?_
    exact (h.marks m hm).imp id .inl

end Keeping

theorem kept_of_reach (h : Reach next (· = initial subject packer) anyStep s) :
    Wired s ∧ Kept s := by
  refine @Reach.invariant _ _ _ _ _ (fun s => Wired s ∧ Kept s) ?_ ?_ s h
  · rintro s rfl
    refine ⟨⟨nofun, nofun, nofun⟩, rfl, rfl, nofun, nofun, nofun, nofun, rfl, nofun⟩
  · rintro s c s' ⟨hw, hk⟩ - hstep
    obtain ⟨hw', hchange⟩ := change_next hw hstep
    exact ⟨hw', kept_change hk hchange⟩

/-- No mark is lost, one prepare is in flight at most, and the version counts the commits. -/
theorem marks_kept {subject : Subject} {packer : Bool} {s : Marked P}
    (h : Reach next (· = initial subject packer) anyStep s) :
    (∀ m ∈ s.marks, Pending s m ∨ Covered s m) ∧ s.inflight.length ≤ 1 ∧
      s.state.version = s.committed.length := by
  have hkept := (kept_of_reach h).2
  refine ⟨hkept.marks, ?_, hkept.version⟩
  rw [hkept.inflight]
  split
  · exact zero_le _
  · exact le_refl _

/-- A mark during a prepare: the commit leaves both pending, and a second prepare covers it. -/
theorem marks_kept_in_flight :
    ∃ s : Marked Unit, Reach next (· = initial ⟨1, "", 0⟩ true) anyStep s ∧
      s.marks.length = 2 ∧ s.state.pendingDirty = false ∧ s.committed = [2, 1] ∧
      (∀ m ∈ s.marks, Pending s m ∨ Covered s m) ∧ s.inflight.length ≤ 1 ∧
      s.state.version = s.committed.length := by
  obtain ⟨s, hreach, hmarks, hclean, hcommitted⟩ : ∃ s,
      Reach (@next Unit) (· = initial ⟨1, "", 0⟩ true) anyStep s ∧ s.marks.length = 2 ∧
      s.state.pendingDirty = false ∧ s.committed = [2, 1] :=
    exists_of_anyRun rfl
      [.markDirty 1, .prepare [], .markDirty 2, .packed ⟨fun _ => .ok (), fun _ _ => .ok ()⟩,
        .commit 0, .abort 0 none, .finish 0, .prepare [],
        .packed ⟨fun _ => .ok (), fun _ _ => .ok ()⟩, .commit 1, .finish 1]
      (by decide +kernel)
  exact ⟨s, hreach, hmarks, hclean, hcommitted, marks_kept hreach⟩

end CubeCore.DirtyMarks
