import CubeCore.SyncCustody

namespace CubeCore.EntitySync

open SubjectSync Interleaving TransitionSystem List AList

variable {F V : Type}

def Row (r : SubscriberRef) (sub : Subscription) : Prop :=
  sub.subscriber = r ∧ sub.profile.normalize = sub.profile

def Keys (subs : Table) : Prop :=
  ∀ r sub, subs.lookup r = some sub → Row r sub

def Active (subs : Table) (r : SubscriberRef) (profile : SyncProfile) : Prop :=
  ∃ sub, subs.lookup r = some sub ∧ sub.state = .active ∧ sub.profile = profile

section Tables

variable {subs : Table} {r r' : SubscriberRef} {sub : Subscription} {profile : SyncProfile}

theorem Keys.insert (h : Keys subs) (hrow : Row r sub) : Keys (subs.insert r sub) := by
  intro r' sub' hlookup
  rcases eq_or_ne r' r with rfl | hr
  · rw [lookup_insert] at hlookup
    cases hlookup
    exact hrow
  · rw [lookup_insert_ne hr] at hlookup
    exact h r' sub' hlookup

theorem Keys.erase (h : Keys subs) : Keys (subs.erase r) := by
  intro r' sub' hlookup
  rcases eq_or_ne r' r with rfl | hr
  · rw [lookup_erase] at hlookup
    cases hlookup
  · rw [lookup_erase_ne hr] at hlookup
    exact h r' sub' hlookup

theorem active_insert (h : Active (subs.insert r sub) r' profile) :
    (r' = r ∧ sub.state = .active ∧ sub.profile = profile) ∨ (r' ≠ r ∧ Active subs r' profile) := by
  obtain ⟨sub', hlookup, hactive, hprofile⟩ := h
  rcases eq_or_ne r' r with rfl | hr
  · rw [lookup_insert] at hlookup
    cases hlookup
    exact .inl ⟨rfl, hactive, hprofile⟩
  · rw [lookup_insert_ne hr] at hlookup
    exact .inr ⟨hr, sub', hlookup, hactive, hprofile⟩

theorem active_erase (h : Active (subs.erase r) r' profile) : r' ≠ r ∧ Active subs r' profile := by
  obtain ⟨sub', hlookup, hactive, hprofile⟩ := h
  rcases eq_or_ne r' r with rfl | hr
  · rw [lookup_erase] at hlookup
    cases hlookup
  · rw [lookup_erase_ne hr] at hlookup
    exact ⟨hr, sub', hlookup, hactive, hprofile⟩

theorem not_active (hlookup : subs.lookup r = some sub) (hstate : sub.state ≠ .active) :
    ¬ Active subs r profile := by
  rintro ⟨sub', hlookup', hactive, -⟩
  rw [hlookup] at hlookup'
  cases hlookup'
  exact hstate hactive

variable {version : Nat}

theorem lookup_setContentVersion (h : (setContentVersion version subs sub).lookup r = some sub') :
    ∃ old, subs.lookup r = some old ∧ sub'.subscriber = old.subscriber ∧
      sub'.state = old.state ∧ sub'.profile = old.profile := by
  have hsame : subs.lookup r = some sub' → ∃ old, subs.lookup r = some old ∧
      sub'.subscriber = old.subscriber ∧ sub'.state = old.state ∧ sub'.profile = old.profile :=
    fun hlookup => ⟨sub', hlookup, rfl, rfl, rfl⟩
  unfold setContentVersion at h
  split at h
  · exact hsame h
  rename_i current hcurrent
  split at h
  · rcases eq_or_ne r sub.subscriber with rfl | hr
    · rw [lookup_insert] at h
      cases h
      exact ⟨current, hcurrent, rfl, rfl, rfl⟩
    · rw [lookup_insert_ne hr] at h
      exact hsame h
  · exact hsame h

variable {rows : List Subscription}

theorem lookup_setContentVersions
    (h : (rows.foldl (setContentVersion version) subs).lookup r = some sub') :
    ∃ old, subs.lookup r = some old ∧ sub'.subscriber = old.subscriber ∧
      sub'.state = old.state ∧ sub'.profile = old.profile := by
  induction rows generalizing subs with
  | nil => exact ⟨sub', h, rfl, rfl, rfl⟩
  | cons row rows ih =>
    obtain ⟨mid, hmid, hsub, hstate, hprofile⟩ := ih h
    obtain ⟨old, hold, hsub', hstate', hprofile'⟩ := lookup_setContentVersion hmid
    exact ⟨old, hold, hsub.trans hsub', hstate.trans hstate', hprofile.trans hprofile'⟩

theorem active_setContentVersions
    (h : Active (rows.foldl (setContentVersion version) subs) r profile) :
    Active subs r profile := by
  obtain ⟨sub', hlookup, hactive, hprofile⟩ := h
  obtain ⟨old, hold, -, hstate, hprofile'⟩ := lookup_setContentVersions hlookup
  exact ⟨old, hold, hstate.symm.trans hactive, hprofile'.symm.trans hprofile⟩

theorem Keys.setContentVersions (h : Keys subs) :
    Keys (rows.foldl (setContentVersion version) subs) := by
  intro r sub' hlookup
  obtain ⟨old, hold, hsub, -, hprofile⟩ := lookup_setContentVersions hlookup
  obtain ⟨href, hnormal⟩ := h r old hold
  refine ⟨hsub.trans href, ?_⟩
  rwa [hprofile]

end Tables

section Batches

variable {subs : Table} {r : SubscriberRef}
  {updates : List (SubjectSyncUpdate (Payload F V))} {batch : List (DeliveryEnvelope F V)}

theorem mem_of_byProfile (h : byProfile updates profile = some u) :
    u ∈ updates ∧ u.profile.normalize = profile := by
  refine ⟨mem_reverse.mp (mem_of_find?_eq_some h), ?_⟩
  simpa using find?_some h

theorem rows_filter (entries : List (Sigma fun _ : SubscriberRef => Subscription))
    (hnodup : entries.NodupKeys) (hrow : ∀ e ∈ entries, e.2.subscriber = e.1) :
    (entries.map Sigma.snd).filter (fun sub => sub.subscriber = r) =
      (entries.dlookup r).toList := by
  induction entries with
  | nil => rfl
  | cons e entries ih =>
    obtain ⟨k, sub⟩ := e
    have hsub : sub.subscriber = k := hrow _ (.head _)
    have hrest := ih (nodupKeys_cons.mp hnodup).2 fun e he => hrow e (.tail _ he)
    rw [map_cons]
    rcases eq_or_ne k r with rfl | hk
    · have hnone : entries.dlookup k = none := dlookup_eq_none.mpr (nodupKeys_cons.mp hnodup).1
      rw [filter_cons_of_pos (by simpa using hsub), hrest, hnone, dlookup_cons_eq]
      rfl
    · have hne : ¬ sub.subscriber = r := fun h => hk (hsub.symm.trans h)
      rw [filter_cons_of_neg (by simpa using hne), hrest, dlookup_cons_ne _ _ hk.symm]

theorem activeSubscriptions_filter (hkeys : Keys subs) (r : SubscriberRef) :
    (activeSubscriptions subs).filter (fun sub => sub.subscriber = r) =
      (subs.lookup r).toList.filter fun sub => sub.state = .active := by
  have hrow : ∀ e ∈ subs.entries, e.2.subscriber = e.1 := by
    rintro ⟨k, sub⟩ he
    exact (hkeys k sub (mem_lookup_iff.mpr he)).1
  unfold activeSubscriptions
  rw [filter_comm, rows_filter subs.entries subs.nodupKeys hrow]
  rfl

theorem envelopes_filter (h : envelopes updates rows = .ok batch) (r : SubscriberRef) :
    List.Forall₂
      (fun sub e => ∃ u, byProfile updates sub.profile.normalize = some u ∧
        e = ⟨sub.subscriber, if u.full then .snapshot else .delta, u⟩)
      (rows.filter fun sub => sub.subscriber = r) (batch.filter fun e => e.subscriber = r) := by
  induction rows generalizing batch with
  | nil =>
    cases h
    exact .nil
  | cons sub rows ih =>
    simp only [envelopes] at h
    cases hu : byProfile updates sub.profile.normalize with
    | none =>
      rw [hu] at h
      cases h
    | some u =>
      rw [hu] at h
      cases hrest : envelopes updates rows with
      | error =>
        rw [hrest] at h
        cases h
      | ok =>
        rw [hrest] at h
        cases h
        by_cases hr : sub.subscriber = r
        · rw [filter_cons_of_pos (by simpa using hr), filter_cons_of_pos (by simpa using hr)]
          exact .cons ⟨u, hu, rfl⟩ (ih hrest)
        · rw [filter_cons_of_neg (by simpa using hr), filter_cons_of_neg (by simpa using hr)]
          exact ih hrest

variable {s : Sync F V}

theorem admitAll_batch (hkeys : Keys s.subs)
    (hbatch : envelopes updates (activeSubscriptions s.subs) = .ok batch) (o : Nat)
    (r : SubscriberRef) :
    (∃ sub u, s.subs.lookup r = some sub ∧ sub.state = .active ∧
        byProfile updates sub.profile.normalize = some u ∧ (s.admitAll o batch).log r =
          ⟨o, ⟨r, if u.full then .snapshot else .delta, u⟩⟩ :: s.log r) ∨
      ((∀ profile, ¬ Active s.subs r profile) ∧ (s.admitAll o batch).log r = s.log r) := by
  have hfilter := envelopes_filter hbatch r
  rw [activeSubscriptions_filter hkeys] at hfilter
  simp only [Sync.admitAll]
  cases hlookup : s.subs.lookup r with
  | none =>
    rw [hlookup] at hfilter
    refine .inr ⟨?_, ?_⟩
    · rintro profile ⟨sub, hsome, -⟩
      rw [hlookup] at hsome
      cases hsome
    · rw [forall₂_nil_left_iff.mp hfilter]
      rfl
  | some sub =>
    rw [hlookup] at hfilter
    by_cases hactive : sub.state = .active
    · rw [Option.toList_some, filter_cons_of_pos (by simpa using hactive)] at hfilter
      obtain ⟨e, rest, ⟨u, hu, rfl⟩, hrest, heq⟩ := forall₂_cons_left_iff.mp hfilter
      rw [forall₂_nil_left_iff.mp hrest] at heq
      refine .inl ⟨sub, u, rfl, hactive, hu, ?_⟩
      rw [heq, (hkeys r sub hlookup).1]
      rfl
    rw [Option.toList_some, filter_cons_of_neg (by simpa using hactive)] at hfilter
    refine .inr ⟨fun profile => not_active hlookup hactive, ?_⟩
    rw [forall₂_nil_left_iff.mp hfilter]
    rfl

theorem admitAll_single (o : Nat) (e : DeliveryEnvelope F V) (r : SubscriberRef) :
    (s.admitAll o [e]).log r = if e.subscriber = r then ⟨o, e⟩ :: s.log r else s.log r := by
  simp only [Sync.admitAll, filter_cons, filter_nil, decide_eq_true_eq]
  split <;> rfl

theorem admitAll_self (o : Nat) (e : DeliveryEnvelope F V) :
    (s.admitAll o [e]).log e.subscriber = ⟨o, e⟩ :: s.log e.subscriber := by
  rw [admitAll_single, if_pos rfl]

end Batches

/-- What a goroutine knows about the subscriptions where it is. -/
def Rows (subs : Table) : PC F V → Prop
  | .subscribe _ _ profile | .lookup _ _ profile => profile.normalize = profile
  | .install _ r profile existing => profile.normalize = profile ∧ existing = subs.lookup r
  | .capture _ pending existing | .snapshot _ pending existing _
  | .admitSnapshot _ pending existing _ =>
  subs.lookup pending.subscriber = some pending ∧ pending.state = .pending ∧
    pending.profile.normalize = pending.profile ∧
    ∀ e, existing = some e → Row pending.subscriber e
  | .activate pending _ =>
    subs.lookup pending.subscriber = some pending ∧ pending.state = .pending ∧
      pending.profile.normalize = pending.profile
  | .rollback r existing _ =>
    (∀ profile, ¬ Active subs r profile) ∧ ∀ e, existing = some e → Row r e
  | .admitLeave closing | .restore closing _ | .delete closing =>
    subs.lookup closing.subscriber = some closing ∧ closing.state = .closing ∧
      closing.profile.normalize = closing.profile
  | .admitBatch _ _ updates rows batch =>
    rows = activeSubscriptions subs ∧ envelopes updates (activeSubscriptions subs) = .ok batch
  | _ => True

section Knowledge

variable {bit : F → Fin 64} {g : Nat} {s s' : Sync F V} {pc pc' : PC F V}

theorem rows_flushes (hkeys : Keys s.subs) (hrows : Rows s.subs pc)
    (hflush : Flushes bit g s pc s' pc') : Keys s'.subs ∧ Rows s'.subs pc' := by
  cases hflush with
  | batch hbatch => exact ⟨hkeys, rfl, hbatch⟩
  | updated => exact ⟨hkeys.setContentVersions, trivial⟩
  | _ => exact ⟨hkeys, trivial⟩

theorem rows_subscribes (hkeys : Keys s.subs) (hrows : Rows s.subs pc)
    (hsubscribe : Subscribes g s pc s' pc') : Keys s'.subs ∧ Rows s'.subs pc' := by
  cases hsubscribe with
  | locked | capturing | captured => exact ⟨hkeys, hrows⟩
  | found | notActivated => exact ⟨hkeys, trivial⟩
  | notFound => exact ⟨hkeys, hrows, rfl⟩
  | installed href hpending hprofile =>
    subst href hprofile
    obtain ⟨hnormal, rfl⟩ := hrows
    exact ⟨hkeys.insert ⟨rfl, hnormal⟩, lookup_insert _, hpending, hnormal,
      fun e he => hkeys _ e he⟩
  | noSink href hpending hprofile =>
    subst href hprofile
    obtain ⟨hnormal, rfl⟩ := hrows
    exact ⟨hkeys.insert ⟨rfl, hnormal⟩,
      fun profile => not_active (lookup_insert _) (by rw [hpending]; nofun),
      fun e he => hkeys _ e he⟩
  | notCaptured | notPacked | notAdmitted =>
    obtain ⟨hlookup, hpending, hnormal, hexisting⟩ := hrows
    exact ⟨hkeys, fun profile => not_active hlookup (by rw [hpending]; nofun), hexisting⟩
  | admitted =>
    obtain ⟨hlookup, hpending, hnormal, hexisting⟩ := hrows
    exact ⟨hkeys, hlookup, hpending, hnormal⟩
  | activated => exact ⟨hkeys.insert ⟨rfl, hrows.2.2⟩, trivial⟩
  | @rolledBack r existing =>
    refine ⟨?_, trivial⟩
    cases existing with
    | none => exact hkeys.erase
    | some e => exact hkeys.insert (hrows.2 e rfl)

theorem rows_unsubscribes (hkeys : Keys s.subs) (hrows : Rows s.subs pc)
    (hunsubscribe : Unsubscribes g s pc s' pc') : Keys s'.subs ∧ Rows s'.subs pc' := by
  cases hunsubscribe with
  | locked | notActive | notDeleted => exact ⟨hkeys, trivial⟩
  | closing hcurrent _ hclosing | noSink hcurrent _ hclosing =>
    obtain ⟨rfl, hnormal⟩ := hkeys _ _ hcurrent
    subst hclosing
    exact ⟨hkeys.insert ⟨rfl, hnormal⟩, lookup_insert _, rfl, hnormal⟩
  | admitted | notAdmitted => exact ⟨hkeys, hrows⟩
  | deleted => exact ⟨hkeys.erase, trivial⟩
  | restored => exact ⟨hkeys.insert ⟨rfl, hrows.2.2⟩, trivial⟩

end Knowledge

structure Sound (s : Sync F V) : Prop where
  objects : Objects s
  keys : Keys s.subs

structure Known (g : Nat) (s : Sync F V) (pc : PC F V) : Prop where
  custody : Custody g s pc
  rows : Rows s.subs pc

section Runs

variable [DecidableEq F] {bit : F → Fin 64} {g : Nat} {s s' : Sync F V} {pc pc' : PC F V}
  {a : Act F V}

theorem rows_step (hkeys : Keys s.subs) (hrows : Rows s.subs pc)
    (hstep : Step bit g s pc a s' pc') : Keys s'.subs ∧ Rows s'.subs pc' := by
  cases hstep with
  | outside _ hto =>
    refine ⟨hkeys, ?_⟩
    cases hto with
    | subscribe o r hnormal => exact hnormal
    | _ => trivial
  | event hevent => cases hevent <;> exact ⟨hkeys, trivial⟩
  | flushes hflush => exact rows_flushes hkeys hrows hflush
  | subscribes hsubscribe => exact rows_subscribes hkeys hrows hsubscribe
  | unsubscribes hunsubscribe => exact rows_unsubscribes hkeys hrows hunsubscribe
  | released => exact ⟨hkeys, trivial⟩

theorem keeps_sound (hsound : Sound s) (hknown : Known g s pc) (hstep : Step bit g s pc a s' pc')
    (hclose : a = .close → (s.states s.current).inflightToken = 0) :
    Keeps Sound Known g s s' pc' := by
  obtain ⟨hkeys, hrows⟩ := rows_step hsound.keys hknown.rows hstep
  refine ⟨⟨objects_step hsound.objects hstep, hkeys⟩, ⟨custody_own hknown.custody hstep, hrows⟩, ?_⟩
  intro g' pc₁ hne hother
  refine ⟨custody_other hsound.objects hknown.custody hne hother.custody hstep hclose, ?_⟩
  cases hpc : holdsOp pc₁ with
  | false =>
    have hrows := hother.rows
    cases pc₁ <;> trivial
  | true =>
    rw [(op_other hknown.custody hne hstep (hother.custody.op.mp hpc)).2.2.1]
    exact hother.rows

theorem sound_of_reach {sink : Bool} {content : SyncProfile → F → V}
    {guard : Threads (Sync F V) (PC F V) → Nat × Act F V → Prop} {s : Threads (Sync F V) (PC F V)}
    (hguard : ∀ s g, guard s (g, .close) → (s.shared.states s.shared.current).inflightToken = 0)
    (h : Reach (next bit) (· = initial subject sink content) guard s) : Holds Sound Known s := by
  refine Holds.of_reach h ?_ ?_
  · rintro s rfl
    refine ⟨⟨fun o hopen => ?_, fun r sub hlookup => ?_⟩, fun g => ⟨⟨⟨?_, ?_⟩, ?_⟩, trivial⟩⟩
    · exact of_decide_eq_true hopen
    · cases hlookup
    · intro hpc
      cases hpc
    · intro hop
      cases hop
    · intro o t hflight
      cases hflight
  · rintro s g a e pc hinv hg hstep
    refine keeps_sound hinv.shared (hinv.knows g) (step_of_eq hstep) ?_
    rintro rfl
    exact hguard s g hg

end Runs

end CubeCore.EntitySync
