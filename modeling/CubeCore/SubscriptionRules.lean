import CubeCore.SyncTable

namespace CubeCore.SubscriptionRules

open SubjectSync Interleaving TransitionSystem EntitySync

variable {F V : Type}

/-- `Good` is said of an active subscriber, `Snap` of a snapshot that makes it good, `Pack` of the
updates of a prepare, `Done` once they are admitted. -/
structure RowSpec (F V : Type) where
  Good : Sync F V → SubscriberRef → SyncProfile → Prop
  Snap : Sync F V → Nat → SyncProfile → SubjectSyncUpdate (Payload F V) → Prop
  Pack : Sync F V → Ticket → List (SubjectSyncUpdate (Payload F V)) → Prop
  Done : Sync F V → Ticket → Prop

namespace RowSpec

variable (I : RowSpec F V)

def AllGood (s : Sync F V) : Prop := ∀ r profile, Active s.subs r profile → I.Good s r profile

def Existing (s : Sync F V) (r : SubscriberRef) (existing : Option Subscription) : Prop :=
  ∀ e, existing = some e → e.state = .active → I.Good s r e.profile

structure Lawful (bit : F → Fin 64) : Prop where
  good : ∀ {s s' r profile}, Evolves bit s s' → s'.log r = s.log r →
    I.Good s r profile → I.Good s' r profile
  snap : ∀ {s s' o profile u}, Evolves bit s s' → I.Snap s o profile u → I.Snap s' o profile u
  pack : ∀ {s s' g o t updates}, Evolves bit s s' → Objects s → Flying g s o t →
    I.Pack s t updates → I.Pack s' t updates
  done : ∀ {s s' g o t}, Evolves bit s s' → Objects s → Flying g s o t → s'.subs = s.subs →
    s'.log = s.log → I.Done s t → I.Done s' t
  captured : ∀ {s o profile}, Objects s → (s.states o).enabled = true →
    I.Snap s o profile (snapshotUpdate (s.states o).subject profile (s.states o).version
      fun f => some (s.content profile f))
  admitted : ∀ {s o r profile u}, Objects s → I.Snap s o profile u →
    I.Good (s.admitAll o [⟨r, .snapshot, u⟩]) r profile
  packed : ∀ {s t profiles updates}, (∀ p ∈ profiles, p.normalize = p) →
    t.updates (packer bit s.content) profiles = .ok updates → I.Pack s t updates
  delivered : ∀ {s g o t updates batch}, Objects s → Keys s.subs → Flying g s o t → I.AllGood s →
    I.Pack s t updates → envelopes updates (activeSubscriptions s.subs) = .ok batch →
    I.Done (s.admitAll o batch) t
  committed : ∀ {s g o t state} {updates : List (SubjectSyncUpdate (Payload F V))}, Objects s →
    Flying g s o t → I.Done s t → (s.states o).commit (t.prepared updates) = (state, none) →
    I.AllGood (s.setState o state)

/-- What a goroutine knows, besides that all is good while it has the operation lock. -/
def Extra (s : Sync F V) : PC F V → Prop
  | .packing _ _ profiles => ∀ p ∈ profiles, p.normalize = p
  | .prepared _ t updates | .distribute _ t updates | .admitBatch _ t updates _ _ =>
    I.Pack s t updates
  | .commit _ t _ _ => I.Done s t
  | .capture _ pending existing => I.Existing s pending.subscriber existing
  | .snapshot o pending existing version =>
    I.Existing s pending.subscriber existing ∧ (s.states o).enabled = true ∧
      version = (s.states o).version
  | .admitSnapshot o pending existing u =>
    I.Existing s pending.subscriber existing ∧ I.Snap s o pending.profile u
  | .activate pending _ => I.Good s pending.subscriber pending.profile
  | .rollback r existing _ => I.Existing s r existing
  | .admitLeave closing | .restore closing _ => I.Good s closing.subscriber closing.profile
  | _ => True

structure Follows (s : Sync F V) (pc : PC F V) : Prop where
  good : holdsOp pc = true → isCommit pc = false → I.AllGood s
  extra : I.Extra s pc

end RowSpec

section Steps

variable {bit : F → Fin 64} {I : RowSpec F V} {g : Nat} {s s' : Sync F V} {r : SubscriberRef}
  {pc pc' : PC F V}

theorem extra_outside (h : I.Extra s pc) (hpc : holdsOp pc = false)
    (hflight : ∀ o t updates, pc ≠ .prepared o t updates) : I.Extra s' pc := by
  cases pc with
  | packing => exact h
  | prepared o t updates => exact absurd rfl (hflight o t updates)
  | _ => trivial

theorem existing_of_lookup (h : I.AllGood s) : I.Existing s r (s.subs.lookup r) :=
  fun e he hactive => h r e.profile ⟨e, he, hactive, rfl⟩

theorem not_stale (hflying : Flying g s o t) :
    (s.states o).commit (t.prepared updates) ≠ (state, some err) := by
  intro hcommit
  have hcommitted := committed_commit (s.states o) (t.prepared updates)
  rw [hcommit] at hcommitted
  cases hcommitted with
  | stale hstale =>
    rcases hstale with hclosed | htoken | hversion
    · rw [hflying.enabled] at hclosed
      cases hclosed
    · exact htoken hflying.token
    · exact hversion hflying.base

variable (hlaw : I.Lawful bit)

include hlaw

theorem existing_evolves (h : I.Existing s r existing)
    (hev : Evolves bit s s') (hlog : s'.log r = s.log r) : I.Existing s' r existing :=
  fun e he hactive => hlaw.good hev hlog (h e he hactive)

theorem allGood_evolves (h : I.AllGood s) (hev : Evolves bit s s')
    (hactive : ∀ r profile, Active s'.subs r profile →
      (Active s.subs r profile ∧ s'.log r = s.log r) ∨ I.Good s' r profile) : I.AllGood s' := by
  intro r profile hr
  rcases hactive r profile hr with ⟨hold, hlog⟩ | hgood
  · exact hlaw.good hev hlog (h r profile hold)
  · exact hgood

theorem allGood_frame (h : I.AllGood s) (hev : Evolves bit s s')
    (hsubs : s'.subs = s.subs) (hlog : s'.log = s.log) : I.AllGood s' := by
  refine allGood_evolves hlaw h hev fun r profile hr => .inl ?_
  rw [hsubs] at hr
  exact ⟨hr, by rw [hlog]⟩

theorem extra_evolves (h : I.Extra s pc) (hobjects : Objects s)
    (hcustody : Custody g s pc) (hev : Evolves bit s s')
    (hlocked : holdsOp pc = true → s'.subs = s.subs ∧ s'.log = s.log) : I.Extra s' pc := by
  cases pc with
  | packing => exact h
  | prepared o t | distribute o t | admitBatch o t =>
    exact hlaw.pack hev hobjects (hcustody.flight o t rfl) h
  | commit o t =>
    obtain ⟨hsubs, hlog⟩ := hlocked rfl
    exact hlaw.done hev hobjects (hcustody.flight o t rfl) hsubs hlog h
  | capture | rollback =>
    exact existing_evolves hlaw h hev (congrFun (hlocked rfl).2 _)
  | snapshot o =>
    obtain ⟨hexisting, hopen, hversion⟩ := h
    have hgrows := hev.grows o hopen
    exact ⟨existing_evolves hlaw hexisting hev (congrFun (hlocked rfl).2 _),
      hgrows.enabled.trans hopen, hversion.trans hgrows.version.symm⟩
  | admitSnapshot =>
    exact ⟨existing_evolves hlaw h.1 hev (congrFun (hlocked rfl).2 _), hlaw.snap hev h.2⟩
  | activate | admitLeave | restore =>
    exact hlaw.good hev (congrFun (hlocked rfl).2 _) h
  | _ => trivial

theorem allGood_insert (h : I.AllGood s)
    (hsub : sub.state = .active → I.Good s r sub.profile) :
    I.AllGood { s with subs := s.subs.insert r sub, revision := revision } := by
  have hev : Evolves bit s { s with subs := s.subs.insert r sub, revision := revision } :=
    evolves_refl.congr rfl rfl rfl
  refine allGood_evolves hlaw h hev fun r' profile hr => ?_
  rcases active_insert hr with ⟨rfl, hactive, rfl⟩ | ⟨-, hold⟩
  · exact .inr (hlaw.good hev rfl (hsub hactive))
  · exact .inl ⟨hold, rfl⟩

theorem allGood_erase (h : I.AllGood s) :
    I.AllGood { s with subs := s.subs.erase r } := by
  refine allGood_evolves hlaw h (evolves_refl.congr rfl rfl rfl) fun r' profile hr => ?_
  exact .inl ⟨(active_erase hr).2, rfl⟩

theorem allGood_admitAll (h : I.AllGood s)
    (hinactive : ∀ profile, ¬ Active s.subs e.subscriber profile) :
    I.AllGood (s.admitAll o [e]) := by
  refine allGood_evolves hlaw h (evolves_refl.congr rfl rfl rfl) fun r profile hr => .inl ⟨hr, ?_⟩
  rw [admitAll_single, if_neg]
  rintro rfl
  exact hinactive profile hr

theorem follows_flushes (hobjects : Objects s) (hkeys : Keys s.subs)
    (hcustody : Custody g s pc) (hrows : Rows s.subs pc)
    (hfree : s.op = none → I.AllGood s) (hfollows : I.Follows s pc)
    (hflush : Flushes bit g s pc s' pc') : I.Follows s' pc' := by
  obtain ⟨hgood, hextra⟩ := hfollows
  cases hflush with
  | notStarted | packFailed | refused => exact ⟨nofun, trivial⟩
  | started _ _ hprofiles => exact ⟨nofun, hprofiles⟩
  | @packed o t _ _ hupdates =>
    have hev : Evolves bit s (s.lock o none) := evolves_refl.congr rfl rfl rfl
    have hpacked := hlaw.packed hextra hupdates
    exact ⟨nofun, hlaw.pack hev hobjects (hcustody.flight o t rfl) hpacked⟩
  | locked hop =>
    have hev : Evolves bit s { s with op := some g } := evolves_refl.congr rfl rfl rfl
    exact ⟨fun _ _ => allGood_frame hlaw (hfree hop) hev rfl rfl,
      hlaw.pack hev hobjects (hcustody.flight _ _ rfl) hextra⟩
  | noBatch | notAdmitted => exact ⟨fun _ _ => hgood rfl rfl, trivial⟩
  | batch => exact ⟨fun _ _ => hgood rfl rfl, hextra⟩
  | admitted =>
    exact ⟨nofun, hlaw.delivered hobjects hkeys (hcustody.flight _ _ rfl)
      (hgood rfl rfl) hextra hrows.2⟩
  | committed hcommit =>
    exact ⟨fun _ _ => hlaw.committed hobjects (hcustody.flight _ _ rfl) hextra hcommit, trivial⟩
  | stale hcommit => exact absurd hcommit (not_stale (hcustody.flight _ _ rfl))
  | updated =>
    refine ⟨fun _ _ => ?_, trivial⟩
    refine allGood_evolves hlaw (hgood rfl rfl) (evolves_refl.congr rfl rfl rfl) ?_
    exact fun r profile hr => .inl ⟨active_setContentVersions hr, rfl⟩
  | aborted =>
    exact ⟨fun _ _ => allGood_frame hlaw (hgood rfl rfl)
      (evolves_setState (grows_abort _ _ _)) rfl rfl, trivial⟩

theorem follows_subscribes (hobjects : Objects s) (hrows : Rows s.subs pc)
    (hfree : s.op = none → I.AllGood s) (hfollows : I.Follows s pc)
    (hsubscribe : Subscribes g s pc s' pc') : I.Follows s' pc' := by
  obtain ⟨hgood, hextra⟩ := hfollows
  have hev : Evolves bit s s' := evolves_subscribes hsubscribe
  cases hsubscribe with
  | locked hop => exact ⟨fun _ _ => allGood_frame hlaw (hfree hop) hev rfl rfl, trivial⟩
  | found | notFound | notActivated => exact ⟨fun _ _ => hgood rfl rfl, trivial⟩
  | installed href hpending | noSink href hpending =>
    obtain ⟨-, rfl⟩ := hrows
    have hall : I.AllGood s := hgood rfl rfl
    subst href
    refine ⟨fun _ _ => allGood_insert hlaw hall fun hactive => ?_,
      existing_evolves hlaw (existing_of_lookup hall) hev rfl⟩
    rw [hpending] at hactive
    cases hactive
  | notCaptured =>
    exact ⟨fun _ _ => allGood_frame hlaw (hgood rfl rfl) hev rfl rfl,
      existing_evolves hlaw hextra hev rfl⟩
  | capturing hopen =>
    exact ⟨fun _ _ => allGood_frame hlaw (hgood rfl rfl) hev rfl rfl,
      existing_evolves hlaw hextra hev rfl, hopen, rfl⟩
  | captured =>
    obtain ⟨hexisting, hopen, rfl⟩ := hextra
    exact ⟨fun _ _ => allGood_frame hlaw (hgood rfl rfl) hev rfl rfl,
      existing_evolves hlaw hexisting hev rfl, hlaw.snap hev (hlaw.captured hobjects hopen)⟩
  | notPacked =>
    exact ⟨fun _ _ => allGood_frame hlaw (hgood rfl rfl) hev rfl rfl,
      existing_evolves hlaw hextra.1 hev rfl⟩
  | @admitted o pending =>
    obtain ⟨hlookup, hpending, -, -⟩ := hrows
    have hinactive : ∀ profile, ¬ Active s.subs pending.subscriber profile :=
      fun profile => not_active hlookup (by rw [hpending]; nofun)
    exact ⟨fun _ _ => allGood_admitAll hlaw (hgood rfl rfl) hinactive,
      hlaw.admitted hobjects hextra.2⟩
  | notAdmitted => exact ⟨fun _ _ => hgood rfl rfl, hextra.1⟩
  | activated =>
    exact ⟨fun _ _ => allGood_insert hlaw (hgood rfl rfl) fun _ => hextra, trivial⟩
  | @rolledBack r existing =>
    refine ⟨fun _ _ => ?_, trivial⟩
    cases existing with
    | some e => exact allGood_insert hlaw (hgood rfl rfl) (hextra e rfl)
    | none => exact allGood_erase hlaw (hgood rfl rfl)

theorem follows_unsubscribes (hkeys : Keys s.subs) (hrows : Rows s.subs pc)
    (hfree : s.op = none → I.AllGood s) (hfollows : I.Follows s pc)
    (hunsubscribe : Unsubscribes g s pc s' pc') : I.Follows s' pc' := by
  obtain ⟨hgood, hextra⟩ := hfollows
  have hev : Evolves bit s s' := evolves_unsubscribes hunsubscribe
  cases hunsubscribe with
  | locked hop => exact ⟨fun _ _ => allGood_frame hlaw (hfree hop) hev rfl rfl, trivial⟩
  | notActive | notDeleted => exact ⟨fun _ _ => hgood rfl rfl, trivial⟩
  | @closing _ current _ hcurrent hactive hclosing
  | @noSink _ current _ _ hcurrent hactive hclosing =>
    obtain ⟨rfl, -⟩ := hkeys _ _ hcurrent
    have hall : I.AllGood s := hgood rfl rfl
    subst hclosing
    exact ⟨fun _ _ => allGood_insert hlaw hall nofun,
      hlaw.good hev rfl (hall _ _ ⟨current, hcurrent, hactive, rfl⟩)⟩
  | admitted =>
    obtain ⟨hlookup, hclosing, -⟩ := hrows
    have hinactive := fun profile => @not_active _ _ _ profile hlookup (by rw [hclosing]; nofun)
    exact ⟨fun _ _ => allGood_admitAll hlaw (hgood rfl rfl) hinactive, trivial⟩
  | notAdmitted => exact ⟨fun _ _ => hgood rfl rfl, hextra⟩
  | deleted => exact ⟨fun _ _ => allGood_erase hlaw (hgood rfl rfl), trivial⟩
  | restored =>
    exact ⟨fun _ _ => allGood_insert hlaw (hgood rfl rfl) fun _ => hextra, trivial⟩

end Steps

/-- A state is closed without subscriptions, with the operation lock free and nothing in flight. -/
def calm (s : Threads (Sync F V) (PC F V)) : Nat × Act F V → Prop
  | (_, .close) =>
    s.shared.subs.entries = [] ∧ s.shared.op = none ∧
      (s.shared.states s.shared.current).inflightToken = 0
  | _ => True

section Runs

variable [DecidableEq F] {bit : F → Fin 64} {I : RowSpec F V} {g : Nat} {s s' : Sync F V}
  {pc pc' : PC F V} {a : Act F V} (hlaw : I.Lawful bit)

include hlaw

theorem follows_step (hsound : Sound s) (hknown : Known g s pc)
    (hfree : s.op = none → I.AllGood s) (hfollows : I.Follows s pc)
    (hstep : Step bit g s pc a s' pc') : I.Follows s' pc' := by
  cases hstep with
  | outside _ hto => cases hto <;> exact ⟨nofun, trivial⟩
  | event | released => exact ⟨nofun, trivial⟩
  | flushes hflush =>
    exact follows_flushes hlaw hsound.objects hsound.keys hknown.custody hknown.rows hfree
      hfollows hflush
  | subscribes hsubscribe =>
    exact follows_subscribes hlaw hsound.objects hknown.rows hfree hfollows hsubscribe
  | unsubscribes hunsubscribe =>
    exact follows_unsubscribes hlaw hsound.keys hknown.rows hfree hfollows hunsubscribe

theorem free_step (hsound : Sound s) (hknown : Known g s pc)
    (hfree : s.op = none → I.AllGood s) (hfollows : I.Follows s pc)
    (hstep : Step bit g s pc a s' pc') (hclose : a = .close → s.subs.entries = []) :
    s'.op = none → I.AllGood s' := by
  intro hop'
  cases hpc : holdsOp pc with
  | false =>
    obtain ⟨hsubs, hlog, ⟨hsame, -⟩ | ⟨-, hop, -⟩⟩ := unlocked_step hstep hpc
    · by_cases ha : a = .close
      · -- nobody is subscribed
        rintro r profile ⟨sub, hlookup, -⟩
        have hmem := AList.mem_lookup_iff.mp hlookup
        rw [hsubs, hclose ha] at hmem
        cases hmem
      · have hev := evolves_step hsound.objects hstep ha (isCommit_of_unlocked hpc)
        exact allGood_frame hlaw (hfree (hsame.symm.trans hop')) hev hsubs hlog
    · rw [hop] at hop'
      cases hop'
  | true =>
    rcases locked_step hstep hpc (hknown.custody.op.mp hpc) with ⟨hop, -⟩ | ⟨err, rfl, rfl, rfl⟩
    · rw [hop] at hop'
      cases hop'
    · exact allGood_frame hlaw (hfollows.good rfl rfl) (evolves_refl.congr rfl rfl rfl) rfl rfl

theorem follows_other (hsound : Sound s) (hknown : Known g s pc)
    (hne : g' ≠ g) (hknown₁ : Known g' s pc₁) (hfollows : I.Follows s pc₁)
    (hstep : Step bit g s pc a s' pc')
    (hclose : a = .close → s.op = none ∧ (s.states s.current).inflightToken = 0) :
    I.Follows s' pc₁ := by
  have hlocked : holdsOp pc₁ = true → holdsOp pc = false ∧ s'.subs = s.subs ∧ s'.log = s.log := by
    intro hpc₁
    obtain ⟨hpc, -, hsame⟩ := op_other hknown.custody hne hstep (hknown₁.custody.op.mp hpc₁)
    exact ⟨hpc, hsame⟩
  -- a goroutine without lock or prepare does not mind
  have houtside : holdsOp pc₁ = false → (∀ o t updates, pc₁ ≠ .prepared o t updates) →
      I.Follows s' pc₁ := by
    intro hout hflight
    refine ⟨fun hpc₁ => ?_, extra_outside hfollows.extra hout hflight⟩
    rw [hout] at hpc₁
    cases hpc₁
  by_cases ha : a = .close
  · obtain ⟨hop, hzero⟩ := hclose ha
    refine houtside ?_ ?_
    · rw [← Bool.not_eq_true, hknown₁.custody.op, hop]
      nofun
    rintro o t updates rfl
    have hflying := hknown₁.custody.flight o t rfl
    rw [← hsound.objects o hflying.enabled, hflying.token] at hzero
    exact hflying.pos hzero
  · cases hcommit : isCommit pc with
    | false =>
      have hev := evolves_step hsound.objects hstep ha hcommit
      refine ⟨fun hpc₁ hcommit₁ => ?_, ?_⟩
      · obtain ⟨-, hsubs, hlog⟩ := hlocked hpc₁
        exact allGood_frame hlaw (hfollows.good hpc₁ hcommit₁) hev hsubs hlog
      · exact extra_evolves hlaw hfollows.extra hsound.objects hknown₁.custody hev
          fun hpc₁ => (hlocked hpc₁).2
    | true =>
      obtain ⟨o, t, updates, subs, rfl, -⟩ := commit_step hstep hcommit
      refine houtside ?_ ?_
      · rw [← Bool.not_eq_true]
        intro hpc₁
        cases (hlocked hpc₁).1
      -- only one prepare is in flight
      rintro o₁ t₁ updates₁ rfl
      have hflying := hknown.custody.flight o t rfl
      have hflying₁ := hknown₁.custody.flight o₁ t₁ rfl
      have ho : o₁ = o := (hsound.objects o₁ hflying₁.enabled).trans
        (hsound.objects o hflying.enabled).symm
      exact hflying.object_ne hne hflying₁ ho

theorem follows_of_reach {content s}
    (h : Reach (next bit) (· = initial subject sink content) calm s) :
    Holds (fun s => Sound s ∧ (s.op = none → I.AllGood s))
      (fun g s pc => Known g s pc ∧ I.Follows s pc) s := by
  refine Holds.of_reach h ?_ ?_
  · rintro s rfl
    have hsound : Holds Sound Known (initial subject sink content) :=
      sound_of_reach (fun _ _ hclose => hclose.2.2) (@Reach.start _ _ (next bit) _ calm _ rfl)
    refine ⟨⟨hsound.shared, fun _ r profile hr => ?_⟩,
      fun g => ⟨hsound.knows g, fun hop => ?_, trivial⟩⟩
    · obtain ⟨sub, hlookup, -⟩ := hr
      cases hlookup
    · cases hop
  · rintro s g a e pc' ⟨⟨hsound, hfree⟩, hknows⟩ hguard heq
    obtain ⟨hknown, hfollows⟩ := hknows g
    have hstep := step_of_eq heq
    have hclose : a = .close → s.shared.subs.entries = [] ∧ s.shared.op = none ∧
        (s.shared.states s.shared.current).inflightToken = 0 := by
      rintro rfl
      exact hguard
    obtain ⟨hshared, hown, hother⟩ := keeps_sound hsound hknown hstep fun ha => (hclose ha).2.2
    refine ⟨⟨hshared, free_step hlaw hsound hknown hfree hfollows hstep fun ha => (hclose ha).1⟩,
      ⟨hown, follows_step hlaw hsound hknown hfree hfollows hstep⟩, ?_⟩
    rintro g' pc₁ hne ⟨hknown₁, hfollows₁⟩
    exact ⟨hother g' pc₁ hne hknown₁,
      follows_other hlaw hsound hknown hne hknown₁ hfollows₁ hstep fun ha => (hclose ha).2⟩

end Runs

end CubeCore.SubscriptionRules
