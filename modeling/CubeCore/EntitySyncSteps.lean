import CubeCore.EntitySync

namespace CubeCore.EntitySync

open SubjectSync TransitionSystem

variable {F V : Type}

/-- A goroutine that has no lock and nothing in flight. -/
inductive Outside : PC F V → Prop where
  | idle (err : Option SyncError) : Outside (.idle err)
  | flush (o : Nat) : Outside (.flush o)
  | prepare (o : Nat) (ps : List SyncProfile) : Outside (.prepare o ps)
  | subscribe (o : Nat) (r : SubscriberRef)
      (hnormal : profile.normalize = profile) : Outside (.subscribe o r profile)
  | unsubscribe (r : SubscriberRef) : Outside (.unsubscribe r)

/-- What the entity does to its content and its state. -/
inductive Event (bit : F → Fin 64) [DecidableEq F] (s : Sync F V) : Act F V → Sync F V → Prop where
  | change (f : F) (v : SyncProfile → V) :
      Event bit s (.change f v)
        { s.setState s.current ((s.states s.current).markDirty (BitVec.twoPow 64 (bit f))) with
          content := fun profile f' => if f' = f then v profile else s.content profile f' }
  | markDirty (mask : BitVec 64) :
      Event bit s (.markDirty mask) (s.setState s.current ((s.states s.current).markDirty mask))
  | markFullDirty (reason : BitVec 32) :
      Event bit s (.markFullDirty reason)
        (s.setState s.current ((s.states s.current).markFullDirty reason))
  | close : Event bit s .close (s.setState s.current (s.states s.current).close)
  | load (content : SyncProfile → F → V) (hclosed : (s.states s.current).enabled = false) :
      Event bit s (.load content)
        { s.setState (s.current + 1) (newSubjectSyncState (s.states s.current).subject true) with
          current := s.current + 1
          content := content }

inductive Flushes (bit : F → Fin 64) (g : Nat) (s : Sync F V) :
    PC F V → Sync F V → PC F V → Prop where
  | notStarted :
      Flushes bit g s (.prepare o ps) (s.setState o { s.states o with lastError := e }) (.idle err)
  | started {o : Nat} {ps profiles : List SyncProfile} (hopen : (s.states o).enabled = true)
      (hfree : (s.states o).inflightToken = 0)
      (hprofiles : ∀ p ∈ profiles, p.normalize = p) :
      Flushes bit g s (.prepare o ps)
        { (s.setState o
            { s.states o with
              nextToken := (s.states o).nextToken + 1
              inflightToken := (s.states o).nextToken + 1 }).lock o (some g) with
          owner := Function.update s.owner o
            (Function.update (s.owner o) ((s.states o).nextToken + 1) g) }
        (.packing o (s.states o).ticket profiles)
  | packed {o : Nat} {t : Ticket} {profiles : List SyncProfile}
      {updates : List (SubjectSyncUpdate (Payload F V))}
      (hupdates : t.updates (packer bit s.content) profiles = .ok updates) :
      Flushes bit g s (.packing o t profiles) (s.lock o none) (.prepared o t updates)
  | packFailed {o : Nat} {t : Ticket} {profiles : List SyncProfile} {e : SyncError}
      {err : Option SyncError} :
      Flushes bit g s (.packing o t profiles)
        ((s.setState o ((s.states o).failPrepare t.token e)).lock o none) (.idle err)
  | refused : Flushes bit g s (.prepared o t updates)
        (s.setState o ((s.states o).abort (t.prepared updates) (some cause)).1) (.idle err)
  | locked (hfree : s.op = none) :
      Flushes bit g s (.prepared o t updates) { s with op := some g } (.distribute o t updates)
  | noBatch : Flushes bit g s (.distribute o t updates) s (.abort o t updates cause err)
  | batch (hbatch : envelopes updates (activeSubscriptions s.subs) = .ok batch) :
      Flushes bit g s (.distribute o t updates) s
        (.admitBatch o t updates (activeSubscriptions s.subs) batch)
  | admitted :
      Flushes bit g s (.admitBatch o t updates subs batch) (s.admitAll o batch)
        (.commit o t updates subs)
  | notAdmitted :
      Flushes bit g s (.admitBatch o t updates subs batch) s (.abort o t updates cause err)
  | committed (hcommit : (s.states o).commit (t.prepared updates) = (state, none)) :
      Flushes bit g s (.commit o t updates subs) (s.setState o state) (.update t.version subs)
  | stale (hcommit : (s.states o).commit (t.prepared updates) = (state, some err)) :
      Flushes bit g s (.commit o t updates subs) (s.setState o state) (.release (some err))
  | updated : Flushes bit g s (.update version subs)
        { s with subs := subs.foldl (setContentVersion version) s.subs } (.release none)
  | aborted : Flushes bit g s (.abort o t updates cause err)
        (s.setState o ((s.states o).abort (t.prepared updates) (some cause)).1)
        (.release (some err))

inductive Subscribes (g : Nat) (s : Sync F V) : PC F V → Sync F V → PC F V → Prop where
  | locked (hfree : s.op = none) :
      Subscribes g s (.subscribe o r profile) { s with op := some g } (.lookup o r profile)
  | found : Subscribes g s (.lookup o r profile) s (.release none)
  | notFound : Subscribes g s (.lookup o r profile) s (.install o r profile (s.subs.lookup r))
  | installed (href : pending.subscriber = r)
      (hpending : pending.state = .pending) (hprofile : pending.profile = profile) :
      Subscribes g s (.install o r profile existing)
        { s with subs := s.subs.insert r pending, revision := s.revision + 1 }
        (.capture o pending existing)
  | noSink (href : pending.subscriber = r) (hpending : pending.state = .pending)
      (hprofile : pending.profile = profile) :
      Subscribes g s (.install o r profile existing)
        { s with subs := s.subs.insert r pending, revision := s.revision + 1 }
        (.rollback r existing err)
  | notCaptured : Subscribes g s (.capture o pending existing)
        (s.setState o ((s.states o).setSubjectSyncError e))
        (.rollback pending.subscriber existing err)
  | capturing (hopen : (s.states o).enabled = true) :
      Subscribes g s (.capture o pending existing) (s.lock o (some g))
        (.snapshot o pending existing (s.states o).version)
  | captured : Subscribes g s (.snapshot o pending existing version)
        ((s.setState o ((s.states o).setSubjectSyncError none)).lock o none)
        (.admitSnapshot o pending existing
          (snapshotUpdate (s.states o).subject pending.profile version
            fun f => some (s.content pending.profile f)))
  | notPacked : Subscribes g s (.snapshot o pending existing version)
        ((s.setState o ((s.states o).setSubjectSyncError e)).lock o none)
        (.rollback pending.subscriber existing err)
  | admitted : Subscribes g s (.admitSnapshot o pending existing u)
        (s.admitAll o [⟨pending.subscriber, .snapshot, u⟩]) (.activate pending u.version)
  | notAdmitted : Subscribes g s (.admitSnapshot o pending existing u) s
        (.rollback pending.subscriber existing err)
  | activated : Subscribes g s (.activate pending version)
        { s with
          subs := s.subs.insert pending.subscriber
            { pending with state := .active, contentVersion := version } }
        (.release none)
  | notActivated : Subscribes g s (.activate pending version) s (.release err)
  | rolledBack : Subscribes g s (.rollback r existing err)
        { s with subs := rollbackSubscription s.subs r existing } (.release (some err))

inductive Unsubscribes (g : Nat) (s : Sync F V) : PC F V → Sync F V → PC F V → Prop where
  | locked (hfree : s.op = none) :
      Unsubscribes g s (.unsubscribe r) { s with op := some g } (.leave r)
  | notActive : Unsubscribes g s (.leave r) s (.release err)
  | closing (hcurrent : s.subs.lookup r = some current) (hactive : current.state = .active)
      (hclosing : closing = { current with state := .closing, revision := s.revision + 1 }) :
      Unsubscribes g s (.leave r)
        { s with subs := s.subs.insert r closing, revision := s.revision + 1 } (.admitLeave closing)
  | noSink (hcurrent : s.subs.lookup r = some current) (hactive : current.state = .active)
      (hclosing : closing = { current with state := .closing, revision := s.revision + 1 }) :
      Unsubscribes g s (.leave r)
        { s with subs := s.subs.insert r closing, revision := s.revision + 1 }
        (.restore closing err)
  | admitted : Unsubscribes g s (.admitLeave closing)
        (s.admitAll s.current [⟨closing.subscriber, .leave, leaveUpdate closing⟩]) (.delete closing)
  | notAdmitted : Unsubscribes g s (.admitLeave closing) s (.restore closing err)
  | deleted : Unsubscribes g s (.delete closing) { s with subs := s.subs.erase closing.subscriber }
        (.release none)
  | notDeleted : Unsubscribes g s (.delete closing) s (.release none)
  | restored : Unsubscribes g s (.restore closing err)
        { s with subs := s.subs.insert closing.subscriber { closing with state := .active } }
        (.release (some err))

inductive Step (bit : F → Fin 64) [DecidableEq F] (g : Nat) (s : Sync F V) :
    PC F V → Act F V → Sync F V → PC F V → Prop where
  | outside (hfrom : Outside pc) (hto : Outside pc') : Step bit g s pc a s pc'
  | event (hevent : Event bit s a s') : Step bit g s (.idle err) a s' (.idle err)
  | flushes (hflush : Flushes bit g s pc s' pc') : Step bit g s pc a s' pc'
  | subscribes (hsubscribe : Subscribes g s pc s' pc') : Step bit g s pc a s' pc'
  | unsubscribes (hunsubscribe : Unsubscribes g s pc s' pc') : Step bit g s pc a s' pc'
  | released : Step bit g s (.release err) a { s with op := none } (.idle err)

section Inversion

variable [DecidableEq F] {bit : F → Fin 64} {g : Nat} {s s' : Sync F V} {pc pc' : PC F V}
  {a : Act F V}

theorem snapshotVersion_ok {version : Nat} {state : SubjectSyncState}
    (h : state.snapshotVersion = .ok version) : state.enabled = true ∧ version = state.version := by
  unfold SubjectSyncState.snapshotVersion at h
  split_ifs at h with henabled
  cases h
  exact ⟨by simpa using henabled, rfl⟩

/-- The cases are the branches of `step` in their order. -/
theorem step_of_eq (h : step bit g s pc a = some (s', pc')) : Step bit g s pc a s' pc' := by
  apply of_eq_some (P := fun r => Step bit g s pc a r.1 r.2) h
  fun_cases step bit g s pc a with
  | case2 | case5 | case6 | case8 => exact .outside (.idle _) (.idle _)
  | case3 => exact .outside (.idle _) (.flush _)
  | case7 _ o _ profile => exact .outside (.idle _) (.subscribe o _ profile.normalize_normalize)
  | case9 => exact .outside (.idle _) (.unsubscribe _)
  | case11 => exact .event (.change _ _)
  | case12 => exact .event (.markDirty _)
  | case13 => exact .event (.markFullDirty _)
  | case15 => exact .event .close
  | case17 _ _ hclosed => exact .event (.load _ (Bool.eq_false_iff.mpr hclosed))
  | case18 => exact .outside (.flush _) (.prepare _ _)
  | case20 _ _ _ _ _ hstart =>
    obtain ⟨e, rfl⟩ := startPrepare_error hstart
    exact .flushes .notStarted
  | case21 _ _ _ _ _ hstart =>
    obtain ⟨hopen, hfree, rfl, rfl⟩ := startPrepare_ok hstart
    exact .flushes (.started hopen hfree fun _ hp => normalize_of_mem hp)
  | case22 _ _ _ _ hupdates => exact .flushes (.packed hupdates)
  | case23 | case24 => exact .flushes .packFailed
  | case25 => exact .flushes .refused
  | case26 _ _ _ _ hfree => exact .flushes (.locked hfree)
  | case28 | case29 | case30 => exact .flushes .noBatch
  | case31 _ _ _ _ _ _ hbatch => exact .flushes (.batch hbatch)
  | case32 => exact .flushes .admitted
  | case34 => exact .flushes .notAdmitted
  | case35 _ _ _ _ _ _ hcommit => exact .flushes (.stale hcommit)
  | case36 _ _ _ _ _ hcommit => exact .flushes (.committed hcommit)
  | case37 => exact .flushes .updated
  | case38 => exact .flushes .aborted
  | case39 _ _ _ hfree => exact .subscribes (.locked hfree)
  | case41 => exact .subscribes .found
  | case42 => exact .subscribes .notFound
  | case43 =>
    split
    · exact .subscribes (.installed rfl rfl rfl)
    · exact .subscribes (.noSink rfl rfl rfl)
  | case45 => exact .subscribes .notCaptured
  | case46 _ _ _ _ _ hversion =>
    obtain ⟨hopen, rfl⟩ := snapshotVersion_ok hversion
    exact .subscribes (.capturing hopen)
  | case47 _ _ _ _ _ hpayload =>
    cases hpayload
    exact .subscribes .captured
  | case48 | case49 => exact .subscribes .notPacked
  | case50 => exact .subscribes .admitted
  | case51 => exact .subscribes .notAdmitted
  | case52 => exact .subscribes .activated
  | case53 => exact .subscribes .notActivated
  | case54 => exact .subscribes .rolledBack
  | case55 _ hfree => exact .unsubscribes (.locked hfree)
  | case57 | case58 => exact .unsubscribes .notActive
  | case59 _ _ hcurrent hactive =>
    have hactive := Decidable.not_not.mp hactive
    split
    · exact .unsubscribes (.closing hcurrent hactive rfl)
    · exact .unsubscribes (.noSink hcurrent hactive rfl)
  | case60 => exact .unsubscribes .admitted
  | case61 => exact .unsubscribes .notAdmitted
  | case62 => exact .unsubscribes .deleted
  | case63 => exact .unsubscribes .notDeleted
  | case64 => exact .unsubscribes .restored
  | case65 => exact .released
  | _ => trivial

end Inversion

end CubeCore.EntitySync
