import CubeCore.EntitySyncSteps

namespace CubeCore.EntitySync

open SubjectSync Interleaving Function BitVec Nat SubjectSyncState

variable {F V : Type}

def holdsOp : PC F V → Bool
  | .idle _ | .flush _ | .prepare _ _ | .packing _ _ _ | .prepared _ _ _ | .subscribe _ _ _
  | .unsubscribe _ => false
  | _ => true

/-- The object and the ticket of a goroutine's prepare. -/
def flight : PC F V → Option (Nat × Ticket)
  | .packing o t _ | .prepared o t _ | .distribute o t _ | .admitBatch o t _ _ _ | .commit o t _ _
  | .abort o t _ _ _ => some (o, t)
  | _ => none

def dirtyBit (state : SubjectSyncState) (i : Nat) : Prop :=
  state.fullDirty = true ∨ state.dirtyMask.getLsbD i = true

/-- What marks do to a state: no dirty bit is cleared, and the generation counts. -/
structure Grows (state state' : SubjectSyncState) : Prop where
  enabled : state'.enabled = state.enabled
  version : state'.version = state.version
  generation : state.dirtyGeneration ≤ state'.dirtyGeneration
  full : state.fullDirty = true → state'.fullDirty = true
  bits : ∀ i, dirtyBit state i → dirtyBit state' i
  same : state'.dirtyGeneration = state.dirtyGeneration →
    state'.dirtyMask = state.dirtyMask ∧ state'.fullDirty = state.fullDirty

variable {P : Type}

section Growing

variable (state : SubjectSyncState)

theorem Grows.refl : Grows state state :=
  ⟨rfl, rfl, le_refl _, id, fun _ => id, fun _ => ⟨rfl, rfl⟩⟩

theorem grows_of_error (token : Nat) (next : Nat) (e : Option SyncError) :
    Grows state { state with inflightToken := token, nextToken := next, lastError := e } :=
  ⟨rfl, rfl, le_refl _, id, fun _ => id, fun _ => ⟨rfl, rfl⟩⟩

theorem grows_markDirty (mask : BitVec 64) : Grows state (state.markDirty mask) := by
  unfold markDirty
  split
  · exact .refl state
  split
  · refine ⟨rfl, rfl, le_succ _, id, fun i hi => ?_, fun heq => ?_⟩
    · refine hi.imp id fun hbit => ?_
      dsimp only
      rw [getLsbD_or, hbit, Bool.true_or]
    · exact absurd heq (succ_ne_self _)
  · exact .refl state

theorem grows_markFullDirty (reason : BitVec 32) : Grows state (state.markFullDirty reason) := by
  unfold markFullDirty
  split
  · refine ⟨rfl, rfl, le_succ _, fun _ => rfl, fun _ _ => .inl rfl, fun heq => ?_⟩
    exact absurd heq (succ_ne_self _)
  · exact .refl state

theorem dirtyBit_markDirty (henabled : state.enabled = true) (i : Fin 64) :
    dirtyBit (state.markDirty (twoPow 64 i)) i ∧
      (state.markDirty (twoPow 64 i)).dirtyGeneration ≠ state.dirtyGeneration := by
  have hset : (twoPow 64 i).getLsbD i = true := by simp
  have hmask : twoPow 64 i ≠ 0 := by
    intro hzero
    rw [hzero] at hset
    simp at hset
  rw [markDirty, if_neg hmask, if_pos henabled]
  refine ⟨.inr ?_, succ_ne_self _⟩
  dsimp only
  rw [getLsbD_or, hset, Bool.or_true]

theorem grows_abort (p : PreparedSubjectSync P) (cause : Option SyncError) :
    Grows state (state.abort p cause).1 := by
  obtain ⟨e, habort⟩ := abort_fst state p cause
  rw [habort]
  exact grows_of_error state _ _ e

end Growing

/-- No dirty bit is cleared: the content changes at dirty fields, with a new generation. -/
structure Evolves (bit : F → Fin 64) (s s' : Sync F V) : Prop where
  grows : ∀ o, (s.states o).enabled = true → Grows (s.states o) (s'.states o)
  current : (s.states s.current).enabled = true → s'.current = s.current
  content : (s.states s.current).enabled = true → ∀ p f,
    s'.content p f = s.content p f ∨ dirtyBit (s'.states s.current) (bit f)
  same : (s.states s.current).enabled = true →
    (s'.states s.current).dirtyGeneration = (s.states s.current).dirtyGeneration →
    s'.content = s.content

section Evolving

variable {bit : F → Fin 64} {s : Sync F V}

theorem evolves_setState {o : Nat} {state} (h : Grows (s.states o) state) :
    Evolves bit s (s.setState o state) := by
  refine ⟨fun o' _ => ?_, fun _ => rfl, fun _ _ _ => .inl rfl, fun _ _ => rfl⟩
  simp only [Sync.setState]
  rcases eq_or_ne o' o with rfl | ho
  · simpa using h
  · rw [update_of_ne ho]
    exact .refl _

theorem Evolves.congr (h : Evolves bit s s') (hstates : s''.states = s'.states)
    (hcurrent : s''.current = s'.current) (hcontent : s''.content = s'.content) :
    Evolves bit s s'' := by
  obtain ⟨hgrows, hcur, hval, hsame⟩ := h
  refine ⟨?_, ?_, ?_, ?_⟩
  · rwa [hstates]
  · rwa [hcurrent]
  · rwa [hcontent, hstates]
  · rwa [hcontent, hstates]

theorem evolves_refl : Evolves bit s s :=
  ⟨fun _ _ => .refl _, fun _ => rfl, fun _ _ _ => .inl rfl, fun _ _ => rfl⟩

end Evolving

/-- Only the object that was loaded last can be open. -/
def Objects (s : Sync F V) : Prop :=
  ∀ o, (s.states o).enabled = true → o = s.current

theorem Objects.setState (h : Objects s) {state}
    (henabled : state.enabled = true → (s.states o).enabled = true) :
    Objects (s.setState o state) := by
  intro o' hopen
  simp only [Sync.setState] at hopen
  rcases eq_or_ne o' o with rfl | ho
  · rw [update_self] at hopen
    exact h o' (henabled hopen)
  · rw [update_of_ne ho] at hopen
    exact h o' hopen

section Calls

variable {bit : F → Fin 64} {g : Nat} {s s' : Sync F V} {pc pc' : PC F V}

def isCommit : PC F V → Bool
  | .commit _ _ _ _ => true
  | _ => false

theorem isCommit_of_unlocked (hpc : holdsOp pc = false) : isCommit pc = false := by
  cases pc <;> first | rfl | cases hpc

theorem evolves_flushes (h : Flushes bit g s pc s' pc') (hcommit : isCommit pc = false) :
    Evolves bit s s' := by
  cases h with
  | notStarted => exact evolves_setState (grows_of_error _ _ _ _)
  | started | packFailed => exact (evolves_setState (grows_of_error _ _ _ _)).congr rfl rfl rfl
  | packed => exact evolves_refl.congr rfl rfl rfl
  | refused | aborted => exact evolves_setState (grows_abort _ _ _)
  | committed | stale => cases hcommit
  | _ => exact evolves_refl.congr rfl rfl rfl

theorem evolves_subscribes (h : Subscribes g s pc s' pc') : Evolves bit s s' := by
  cases h with
  | notCaptured => exact evolves_setState (grows_of_error _ _ _ _)
  | captured | notPacked => exact (evolves_setState (grows_of_error _ _ _ _)).congr rfl rfl rfl
  | _ => exact evolves_refl.congr rfl rfl rfl

theorem evolves_unsubscribes (h : Unsubscribes g s pc s' pc') : Evolves bit s s' := by
  cases h <;> exact evolves_refl.congr rfl rfl rfl

theorem commit_enabled (state : SubjectSyncState) (p : PreparedSubjectSync P) :
    (state.commit p).1.enabled = state.enabled := by
  have hcommitted := committed_commit state p
  generalize state.commit p = r at hcommitted
  cases hcommitted <;> rfl

theorem objects_flushes (h : Objects s) (hflush : Flushes bit g s pc s' pc') : Objects s' := by
  cases hflush with
  | notStarted | started | packFailed => exact h.setState id
  | refused | aborted => exact h.setState (grows_abort _ _ _).enabled.symm.trans
  | @committed o _ t updates _ hcommit | @stale o _ _ t updates _ hcommit =>
    refine h.setState fun hopen => ?_
    rwa [← commit_enabled _ (t.prepared updates), hcommit]
  | _ => exact h

end Calls

section Steps

variable [DecidableEq F] {bit : F → Fin 64} {g : Nat} {s s' : Sync F V} {pc pc' : PC F V}
  {a : Act F V}

theorem evolves_event (hobjects : Objects s) (hevent : Event bit s a s') (hclose : a ≠ .close) :
    Evolves bit s s' := by
  cases hevent with
  | change f =>
    have hgrows := grows_markDirty (s.states s.current) (twoPow 64 (bit f))
    obtain ⟨hstates, -, -, -⟩ := @evolves_setState _ _ bit s s.current _ hgrows
    refine ⟨hstates, fun _ => rfl, fun hopen p f' => ?_, fun hopen heq => ?_⟩
    · rcases eq_or_ne f' f with rfl | hf
      · refine .inr ?_
        simpa [Sync.setState] using (dirtyBit_markDirty _ hopen (bit f')).1
      · exact .inl (if_neg hf)
    · simp only [Sync.setState, update_self] at heq
      exact absurd heq (dirtyBit_markDirty _ hopen (bit f)).2
  | markDirty mask => exact evolves_setState (grows_markDirty _ mask)
  | markFullDirty reason => exact evolves_setState (grows_markFullDirty _ reason)
  | close => exact absurd rfl hclose
  | load _ hclosed =>
    have hnone : ∀ {P : Prop} o, (s.states o).enabled = true → P := by
      intro P o hopen
      rw [hobjects o hopen, hclosed] at hopen
      cases hopen
    exact ⟨fun o => hnone o, fun hopen => hnone _ hopen, fun hopen => hnone _ hopen,
      fun hopen => hnone _ hopen⟩

theorem evolves_step (hobjects : Objects s) (h : Step bit g s pc a s' pc') (hclose : a ≠ .close)
    (hcommit : isCommit pc = false) : Evolves bit s s' := by
  cases h with
  | outside => exact evolves_refl
  | event hevent => exact evolves_event hobjects hevent hclose
  | flushes hflush => exact evolves_flushes hflush hcommit
  | subscribes hsubscribe => exact evolves_subscribes hsubscribe
  | unsubscribes hunsubscribe => exact evolves_unsubscribes hunsubscribe
  | released => exact evolves_refl.congr rfl rfl rfl

theorem commit_step (h : Step bit g s pc a s' pc') (hpc : isCommit pc = true) :
    ∃ o t updates subs, pc = .commit o t updates subs ∧
      s' = s.setState o ((s.states o).commit (t.prepared updates)).1 := by
  cases h with
  | flushes hflush =>
    cases hflush with
    | committed hcommit | stale hcommit => exact ⟨_, _, _, _, rfl, by rw [hcommit]⟩
    | _ => cases hpc
  | outside hfrom => cases hfrom <;> cases hpc
  | event | released => cases hpc
  | subscribes hsubscribe => cases hsubscribe <;> cases hpc
  | unsubscribes hunsubscribe => cases hunsubscribe <;> cases hpc

theorem unlocked_step (h : Step bit g s pc a s' pc') (hpc : holdsOp pc = false) :
    s'.subs = s.subs ∧ s'.log = s.log ∧
      (s'.op = s.op ∧ holdsOp pc' = false ∨ s.op = none ∧ s'.op = some g ∧ holdsOp pc' = true) := by
  cases h with
  | outside _ hto => cases hto <;> exact ⟨rfl, rfl, .inl ⟨rfl, rfl⟩⟩
  | event hevent => cases hevent <;> exact ⟨rfl, rfl, .inl ⟨rfl, rfl⟩⟩
  | flushes hflush =>
    cases hflush with
    | locked hfree => exact ⟨rfl, rfl, .inr ⟨hfree, rfl, rfl⟩⟩
    | notStarted | started | packed | packFailed | refused => exact ⟨rfl, rfl, .inl ⟨rfl, rfl⟩⟩
    | _ => cases hpc
  | subscribes hsubscribe =>
    cases hsubscribe with
    | locked hfree => exact ⟨rfl, rfl, .inr ⟨hfree, rfl, rfl⟩⟩
    | _ => cases hpc
  | unsubscribes hunsubscribe =>
    cases hunsubscribe with
    | locked hfree => exact ⟨rfl, rfl, .inr ⟨hfree, rfl, rfl⟩⟩
    | _ => cases hpc
  | released => cases hpc

theorem locked_step (h : Step bit g s pc a s' pc') (hpc : holdsOp pc = true) (hop : s.op = some g) :
    (s'.op = some g ∧ holdsOp pc' = true) ∨
      (∃ err, pc = .release err ∧ pc' = .idle err ∧ s' = { s with op := none }) := by
  cases h with
  | outside hfrom => cases hfrom <;> cases hpc
  | event => cases hpc
  | flushes hflush =>
    cases hflush with
    | notStarted | started | packed | packFailed | refused | locked => cases hpc
    | _ => exact .inl ⟨hop, rfl⟩
  | subscribes hsubscribe =>
    cases hsubscribe with
    | locked => cases hpc
    | _ => exact .inl ⟨hop, rfl⟩
  | unsubscribes hunsubscribe =>
    cases hunsubscribe with
    | locked => cases hpc
    | _ => exact .inl ⟨hop, rfl⟩
  | released => exact .inr ⟨_, rfl, rfl, rfl⟩

end Steps

/-- The prepare with ticket `t` of goroutine `g` is in flight on object `o`. -/
structure Flying (g : Nat) (s : Sync F V) (o : Nat) (t : Ticket) : Prop where
  enabled : (s.states o).enabled = true
  token : (s.states o).inflightToken = t.token
  pos : t.token ≠ 0
  bound : t.token ≤ (s.states o).nextToken
  owner : s.owner o t.token = g
  base : (s.states o).version = t.baseVersion
  succ : t.version = t.baseVersion + 1
  generation : t.generation ≤ (s.states o).dirtyGeneration
  full : t.full = true → (s.states o).fullDirty = true
  bits : ∀ i, t.mask.getLsbD i = true → dirtyBit (s.states o) i
  same : (s.states o).dirtyGeneration = t.generation →
    (s.states o).dirtyMask = t.mask ∧ (s.states o).fullDirty = t.full

section Flight

variable {g : Nat} {s s' : Sync F V} {o : Nat} {t : Ticket}

section

variable (h : Flying g s o t)
include h

theorem Flying.grows (hgrows : Grows (s.states o) (s'.states o))
    (htoken : (s'.states o).inflightToken = (s.states o).inflightToken)
    (hnext : (s.states o).nextToken ≤ (s'.states o).nextToken)
    (howner : s'.owner o t.token = s.owner o t.token) : Flying g s' o t := by
  refine ⟨hgrows.enabled.trans h.enabled, htoken.trans h.token, h.pos, h.bound.trans hnext,
    howner.trans h.owner, hgrows.version.trans h.base, h.succ,
    h.generation.trans hgrows.generation, fun hfull => hgrows.full (h.full hfull),
    fun i hi => hgrows.bits i (h.bits i hi), fun heq => ?_⟩
  have hle := hgrows.generation
  have hgen := h.generation
  have hsame := hgrows.same (by omega)
  have hticket := h.same (by omega)
  exact ⟨hsame.1.trans hticket.1, hsame.2.trans hticket.2⟩

theorem Flying.object_ne (hne : g' ≠ g) (h' : Flying g' s o' t') : o' ≠ o := by
  rintro rfl
  have htoken : t'.token = t.token := h'.token.symm.trans h.token
  have howner := h'.owner
  rw [htoken, h.owner] at howner
  exact hne howner.symm

theorem Flying.congr (hstates : s'.states o = s.states o)
    (howner : s'.owner o t.token = s.owner o t.token) : Flying g s' o t :=
  h.grows (by rw [hstates]; exact .refl _) (by rw [hstates]) (by rw [hstates]) howner

theorem Flying.setState_ne (hne : o' ≠ o) (state : SubjectSyncState) :
    Flying g (s.setState o' state) o t :=
  h.congr (update_of_ne hne.symm ..) rfl

theorem Flying.setState {state} (hgrows : Grows (s.states o') state)
    (htoken : state.inflightToken = (s.states o').inflightToken)
    (hnext : state.nextToken = (s.states o').nextToken) : Flying g (s.setState o' state) o t := by
  rcases eq_or_ne o' o with rfl | ho
  · have hset : (s.setState o' state).states o' = state := by
      simp only [Sync.setState, update_self]
    refine h.grows ?_ ?_ ?_ rfl
    · rwa [hset]
    · rw [hset, htoken]
    · rw [hset, hnext]
  · exact h.setState_ne ho state

theorem Flying.setError (o' : Nat) (e : Option SyncError) :
    Flying g (s.setState o' ((s.states o').setSubjectSyncError e)) o t :=
  h.setState (grows_of_error _ _ _ _) rfl rfl

end

theorem markDirty_token (state : SubjectSyncState) (mask : BitVec 64) :
    (state.markDirty mask).inflightToken = state.inflightToken ∧
      (state.markDirty mask).nextToken = state.nextToken := by
  unfold markDirty
  split
  · exact ⟨rfl, rfl⟩
  · split <;> exact ⟨rfl, rfl⟩

theorem markFullDirty_token (state : SubjectSyncState) (reason : BitVec 32) :
    (state.markFullDirty reason).inflightToken = state.inflightToken ∧
      (state.markFullDirty reason).nextToken = state.nextToken := by
  unfold markFullDirty
  split <;> exact ⟨rfl, rfl⟩

theorem flying_started (hopen : (s.states o).enabled = true) :
    Flying g
      { (s.setState o
          { s.states o with
            nextToken := (s.states o).nextToken + 1
            inflightToken := (s.states o).nextToken + 1 }).lock o (some g) with
        owner := update s.owner o
          (update (s.owner o) ((s.states o).nextToken + 1) g) }
      o (s.states o).ticket := by
  have hset : ∀ state, (s.setState o state).states o = state := by
    intro state
    simp only [Sync.setState, update_self]
  refine ⟨?_, ?_, succ_ne_zero _, ?_, ?_, ?_, rfl, ?_, ?_, ?_, ?_⟩
  all_goals simp only [Sync.lock, hset, ticket]
  · exact hopen
  · exact le_refl _
  · rw [update_self, update_self]
  · exact le_refl _
  · exact id
  · exact fun i hi => .inr hi
  · exact fun _ => ⟨trivial, trivial⟩

end Flight

structure Custody (g : Nat) (s : Sync F V) (pc : PC F V) : Prop where
  op : holdsOp pc = true ↔ s.op = some g
  flight : ∀ o t, flight pc = some (o, t) → Flying g s o t

section Custodies

variable [DecidableEq F] {bit : F → Fin 64} {g g' : Nat} {s s' : Sync F V} {pc pc' : PC F V}
  {a : Act F V} {o : Nat} {t : Ticket}

theorem flying_event (hobjects : Objects s) (h : Flying g s o t) (hevent : Event bit s a s')
    (hclose : a = .close → (s.states s.current).inflightToken = 0) : Flying g s' o t := by
  cases hevent with
  | change f =>
    obtain ⟨htoken, hnext⟩ := markDirty_token (s.states s.current) (twoPow 64 (bit f))
    exact (h.setState (grows_markDirty _ _) htoken hnext).congr rfl rfl
  | markDirty mask =>
    obtain ⟨htoken, hnext⟩ := markDirty_token (s.states s.current) mask
    exact h.setState (grows_markDirty _ _) htoken hnext
  | markFullDirty reason =>
    obtain ⟨htoken, hnext⟩ := markFullDirty_token (s.states s.current) reason
    exact h.setState (grows_markFullDirty _ _) htoken hnext
  | close =>
    -- nothing is in flight when a state is closed
    have hzero := hclose rfl
    rw [← hobjects o h.enabled, h.token] at hzero
    exact absurd hzero h.pos
  | load _ hclosed =>
    have hopen := h.enabled
    rw [hobjects o hopen, hclosed] at hopen
    cases hopen

theorem flying_other (hobjects : Objects s) (hcustody : Custody g s pc) (hne : g' ≠ g)
    (h : Flying g' s o t) (hstep : Step bit g s pc a s' pc')
    (hclose : a = .close → (s.states s.current).inflightToken = 0) : Flying g' s' o t := by
  have hobject : ∀ o' t', flight pc = some (o', t') → o' ≠ o :=
    fun o' t' hflight => h.object_ne hne.symm (hcustody.flight o' t' hflight)
  cases hstep with
  | outside => exact h
  | event hevent => exact flying_event hobjects h hevent hclose
  | flushes hflush =>
    cases hflush with
    | notStarted => exact h.setError _ _
    | @started o' _ _ _ hfree =>
      have ho : o' ≠ o := by
        rintro rfl
        exact h.pos (h.token.symm.trans hfree)
      refine (h.setState_ne ho _).congr rfl ?_
      dsimp only
      rw [update_of_ne ho.symm]
      rfl
    | packed => exact h.congr rfl rfl
    | packFailed => exact (h.setState_ne (hobject _ _ rfl) _).congr rfl rfl
    | refused | aborted | committed | stale => exact h.setState_ne (hobject _ _ rfl) _
    | _ => exact h.congr rfl rfl
  | subscribes hsubscribe =>
    cases hsubscribe with
    | notCaptured => exact h.setError _ _
    | captured | notPacked => exact (h.setError _ _).congr rfl rfl
    | _ => exact h.congr rfl rfl
  | unsubscribes hunsubscribe => cases hunsubscribe <;> exact h.congr rfl rfl
  | released => exact h.congr rfl rfl

section

variable (hcustody : Custody g s pc)
include hcustody

theorem flying_own (hstep : Step bit g s pc a s' pc') (hflight : flight pc' = some (o, t)) :
    Flying g s' o t := by
  cases hstep with
  | outside _ hto => cases hto <;> cases hflight
  | event | released => cases hflight
  | flushes hflush =>
    cases hflush with
    | started hopen =>
      cases hflight
      exact flying_started hopen
    | packed | locked | admitted =>
      cases hflight
      exact (hcustody.flight o t rfl).congr rfl rfl
    | noBatch | batch | notAdmitted =>
      cases hflight
      exact hcustody.flight o t rfl
    | _ => cases hflight
  | subscribes hsubscribe => cases hsubscribe <;> cases hflight
  | unsubscribes hunsubscribe => cases hunsubscribe <;> cases hflight

theorem custody_own (hstep : Step bit g s pc a s' pc') : Custody g s' pc' := by
  refine ⟨?_, fun o t hflight => flying_own hcustody hstep hflight⟩
  cases hpc : holdsOp pc with
  | false =>
    rcases (unlocked_step hstep hpc).2.2 with ⟨hsame, hout⟩ | ⟨-, hop, hin⟩
    · rw [hout, hsame, ← hcustody.op, hpc]
    · simp only [hin, hop]
  | true =>
    rcases locked_step hstep hpc (hcustody.op.mp hpc) with ⟨hop, hin⟩ | ⟨err, -, rfl, rfl⟩
    · simp only [hin, hop]
    · exact ⟨nofun, nofun⟩

theorem op_other (hne : g' ≠ g) (hstep : Step bit g s pc a s' pc') (hop : s.op = some g') :
    holdsOp pc = false ∧ s'.op = some g' ∧ s'.subs = s.subs ∧ s'.log = s.log := by
  have hpc : holdsOp pc = false := by
    rw [← Bool.not_eq_true]
    intro hpc
    rw [hcustody.op.mp hpc] at hop
    exact hne (Option.some.inj hop).symm
  obtain ⟨hsubs, hlog, ⟨hsame, -⟩ | ⟨hfree, -⟩⟩ := unlocked_step hstep hpc
  · exact ⟨hpc, hsame.trans hop, hsubs, hlog⟩
  · rw [hfree] at hop
    cases hop

theorem op_of_op_other (hne : g' ≠ g) (hstep : Step bit g s pc a s' pc') (hop : s'.op = some g') :
    s.op = some g' := by
  cases hpc : holdsOp pc with
  | false =>
    rcases (unlocked_step hstep hpc).2.2 with ⟨hsame, -⟩ | ⟨-, hnew, -⟩
    · exact hsame.symm.trans hop
    · rw [hnew] at hop
      exact absurd (Option.some.inj hop).symm hne
  | true =>
    rcases locked_step hstep hpc (hcustody.op.mp hpc) with ⟨hown, -⟩ | ⟨err, -, -, rfl⟩
    · rw [hown] at hop
      exact absurd (Option.some.inj hop).symm hne
    · cases hop

end

theorem custody_other {pc₁ : PC F V} (hobjects : Objects s) (hcustody : Custody g s pc)
    (hne : g' ≠ g) (h : Custody g' s pc₁) (hstep : Step bit g s pc a s' pc')
    (hclose : a = .close → (s.states s.current).inflightToken = 0) : Custody g' s' pc₁ := by
  refine ⟨⟨fun hpc => ?_, fun hop => ?_⟩, fun o t hflight => ?_⟩
  · exact (op_other hcustody hne hstep (h.op.mp hpc)).2.1
  · exact h.op.mpr (op_of_op_other hcustody hne hstep hop)
  · exact flying_other hobjects hcustody hne (h.flight o t hflight) hstep hclose

theorem objects_event (h : Objects s) (hevent : Event bit s a s') : Objects s' := by
  cases hevent with
  | change | markDirty => exact h.setState (grows_markDirty _ _).enabled.symm.trans
  | markFullDirty => exact h.setState (grows_markFullDirty _ _).enabled.symm.trans
  | close => exact h.setState nofun
  | load _ hclosed =>
    intro o hopen
    simp only [Sync.setState] at hopen
    by_cases ho : o = s.current + 1
    · exact ho
    · rw [update_of_ne ho] at hopen
      rw [h o hopen, hclosed] at hopen
      cases hopen

theorem objects_step (h : Objects s) (hstep : Step bit g s pc a s' pc') : Objects s' := by
  cases hstep with
  | outside | released => exact h
  | event hevent => exact objects_event h hevent
  | flushes hflush => exact objects_flushes h hflush
  | subscribes hsubscribe =>
    cases hsubscribe with
    | notCaptured | captured | notPacked => exact h.setState id
    | _ => exact h
  | unsubscribes hunsubscribe => cases hunsubscribe <;> exact h

end Custodies

end CubeCore.EntitySync
