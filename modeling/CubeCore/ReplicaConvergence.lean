import CubeCore.SubscriptionRules

namespace CubeCore.ReplicaConvergence

open SubjectSync Interleaving TransitionSystem EntitySync SubscriptionRules

variable {F V : Type}

/-- What a subscriber has from its last snapshot on. -/
def replay : List (Admitted F V) → Option (Payload F V)
  | [] => none
  | e :: es =>
    match e.envelope.kind with
    | .snapshot => some e.envelope.update.payload
    | .delta => (replay es).map fun replica f => (e.envelope.update.payload f).or (replica f)
    | .leave => none

def clean (state : SubjectSyncState) : Bool :=
  state.dirtyMask = 0 && !state.fullDirty && state.inflightToken = 0

/-- One state that is neither closed nor replaced. -/
def opened (_ : Threads (Sync F V) (PC F V)) : Nat × Act F V → Prop
  | (_, .close) | (_, .load _) => False
  | _ => True

section Replicas

variable (bit : F → Fin 64) (s : Sync F V)

/-- A value is the current one, or the bit of its field is dirty. -/
def FreshValue (profile : SyncProfile) (f : F) (x : Option V) : Prop :=
  dirtyBit (s.states s.current) (bit f) ∨ x = some (s.content profile f)

def Fresh (r : SubscriberRef) (profile : SyncProfile) : Prop :=
  (s.states s.current).enabled = true ∧ ∃ replica, replay (s.log r) = some replica ∧
    ∀ f, FreshValue bit s profile f (replica f)

def AllExact : Prop :=
  ∀ r profile, Active s.subs r profile →
    replay (s.log r) = some fun f => some (s.content profile f)

/-- An update with the values that the ticket's fields have in `content`. -/
def PackedFrom (t : Ticket) (content : SyncProfile → F → V)
    (u : SubjectSyncUpdate (Payload F V)) : Prop :=
  u.profile.normalize = u.profile ∧ u.full = t.full ∧
    ∀ f, u.payload f =
      if t.full || t.mask.getLsbD (bit f) then some (content u.profile f) else none

def Packed (t : Ticket) (updates : List (SubjectSyncUpdate (Payload F V))) : Prop :=
  ∃ content, (∀ u ∈ updates, PackedFrom bit t content u) ∧
    ((s.states s.current).dirtyGeneration = t.generation → content = s.content)

/-- All replicas are fresh, and exact when no mark was set since the prepare started. -/
def Delivered (t : Ticket) : Prop :=
  (∀ r profile, Active s.subs r profile → Fresh bit s r profile) ∧
    ((s.states s.current).dirtyGeneration = t.generation → AllExact s)

end Replicas

def replicas (bit : F → Fin 64) : RowSpec F V where
  Good := Fresh bit
  Snap s _ profile u :=
    (s.states s.current).enabled = true ∧ ∀ f, FreshValue bit s profile f (u.payload f)
  Pack := Packed bit
  Done := Delivered bit

section Evolution

variable {bit : F → Fin 64} {s s' : Sync F V} {r : SubscriberRef} {profile : SyncProfile}
  {g o : Nat} {t : Ticket}

theorem FreshValue.evolves (hev : Evolves bit s s') (hopen : (s.states s.current).enabled = true)
    (h : FreshValue bit s profile f x) : FreshValue bit s' profile f x := by
  unfold FreshValue
  rw [hev.current hopen]
  rcases h with hdirty | hvalue
  · exact .inl ((hev.grows _ hopen).bits _ hdirty)
  · rcases hev.content hopen profile f with hsame | hdirty
    · exact .inr (by rw [hvalue, hsame])
    · exact .inl hdirty

theorem enabled_evolves (hev : Evolves bit s s') (hopen : (s.states s.current).enabled = true) :
    (s'.states s'.current).enabled = true := by
  rwa [hev.current hopen, (hev.grows _ hopen).enabled]

theorem Fresh.evolves (h : Fresh bit s r profile) (hev : Evolves bit s s')
    (hlog : s'.log r = s.log r) : Fresh bit s' r profile := by
  obtain ⟨hopen, replica, hreplay, hvalues⟩ := h
  refine ⟨enabled_evolves hev hopen, replica, by rw [hlog]; exact hreplay, fun f => ?_⟩
  exact (hvalues f).evolves hev hopen

theorem content_of_generation (hev : Evolves bit s s') (hobjects : Objects s)
    (hflying : Flying g s o t) (heq : (s'.states s'.current).dirtyGeneration = t.generation) :
    (s.states s.current).dirtyGeneration = t.generation ∧ s'.content = s.content := by
  have hopen := hflying.enabled
  have hgen := hflying.generation
  obtain rfl := hobjects o hopen
  rw [hev.current hopen] at heq
  have hle := (hev.grows _ hopen).generation
  exact ⟨by omega, hev.same hopen (by omega)⟩

theorem Packed.evolves (h : Packed bit s t updates) (hev : Evolves bit s s') (hobjects : Objects s)
    (hflying : Flying g s o t) : Packed bit s' t updates := by
  obtain ⟨content, hupdates, hsame⟩ := h
  refine ⟨content, hupdates, fun heq => ?_⟩
  obtain ⟨hgen, hcontent⟩ := content_of_generation hev hobjects hflying heq
  rw [hcontent]
  exact hsame hgen

theorem Delivered.evolves (h : Delivered bit s t) (hev : Evolves bit s s') (hobjects : Objects s)
    (hflying : Flying g s o t) (hsubs : s'.subs = s.subs) (hlog : s'.log = s.log) :
    Delivered bit s' t := by
  refine ⟨fun r profile hr => ?_, fun heq r profile hr => ?_⟩
  · rw [hsubs] at hr
    exact (h.1 r profile hr).evolves hev (congrFun hlog r)
  obtain ⟨hgen, hcontent⟩ := content_of_generation hev hobjects hflying heq
  rw [hsubs] at hr
  rw [hlog, hcontent]
  exact h.2 hgen r profile hr

end Evolution

section Delivery

variable {bit : F → Fin 64} {g : Nat} {s s' : Sync F V} {o : Nat} {t : Ticket}
  {updates : List (SubjectSyncUpdate (Payload F V))} {profile : SyncProfile}

theorem packed_updates {profiles} (hprofiles : ∀ p ∈ profiles, p.normalize = p)
    (h : t.updates (packer bit s.content) profiles = .ok updates) : Packed bit s t updates := by
  refine ⟨s.content, fun u hu => ?_, fun _ => rfl⟩
  obtain ⟨hprofile, payload, hpack, heq⟩ := Ticket.pack_of_mem_updates h hu
  have hpayload : u.payload = payload := by rw [heq]; rfl
  have hfull : u.full = t.full := by rw [heq]; rfl
  refine ⟨hprofiles _ hprofile, hfull, fun f => ?_⟩
  rw [hpayload]
  unfold Ticket.pack at hpack
  split_ifs at hpack with hall
  · cases hpack
    rw [hall]
    rfl
  · cases hpack
    rw [Bool.eq_false_iff.mpr hall]
    rfl

theorem replay_update (hu : PackedFrom bit t content u) (hold : replay log = some old) :
    ∃ replica, replay (⟨o, ⟨r, if u.full then .snapshot else .delta, u⟩⟩ :: log) = some replica ∧
      ∀ f, replica f =
        if t.full || t.mask.getLsbD (bit f) then some (content u.profile f) else old f := by
  obtain ⟨-, hfull, hpayload⟩ := hu
  cases hall : t.full with
  | true =>
    rw [hall] at hfull
    refine ⟨u.payload, ?_, fun f => ?_⟩
    · simp only [replay, hfull, if_true]
    · rw [hpayload f, hall]
      rfl
  | false =>
    rw [hall] at hfull
    refine ⟨fun f => (u.payload f).or (old f), ?_, fun f => ?_⟩
    · simp only [replay, hfull, hold]
      rfl
    · simp only [hpayload f, hall, Bool.false_or]
      split <;> rfl

theorem delivered_admitAll (hobjects : Objects s) (hkeys : Keys s.subs) (hflying : Flying g s o t)
    (hfresh : ∀ r profile, Active s.subs r profile → Fresh bit s r profile)
    (hpacked : Packed bit s t updates)
    (hbatch : envelopes updates (activeSubscriptions s.subs) = .ok batch) :
    Delivered bit (s.admitAll o batch) t := by
  obtain ⟨content, hupdates, hsame⟩ := hpacked
  have hopen := hflying.enabled
  obtain rfl := hobjects o hopen
  have hreplica : ∀ r profile, Active s.subs r profile → ∃ old replica : Payload F V,
      (∀ f, FreshValue bit s profile f (old f)) ∧
      replay ((s.admitAll s.current batch).log r) = some replica ∧
      ∀ f, replica f =
        if t.full || t.mask.getLsbD (bit f) then some (content profile f) else old f := by
    rintro r profile ⟨sub, hlookup, hactive, rfl⟩
    obtain ⟨-, old, hold, hfreshOld⟩ := hfresh r sub.profile ⟨sub, hlookup, hactive, rfl⟩
    rcases admitAll_batch hkeys hbatch s.current r
      with ⟨sub', u, hlookup', -, hu, hlog⟩ | ⟨hnone, -⟩
    · rw [hlookup] at hlookup'
      cases hlookup'
      obtain ⟨hmem, hnormal⟩ := mem_of_byProfile hu
      have hpackedFrom := hupdates u hmem
      have hprofile : u.profile = sub.profile := by
        rw [← hpackedFrom.1, hnormal]
        exact (hkeys r sub hlookup).2
      obtain ⟨replica, hreplay, hvalues⟩ := replay_update hpackedFrom hold
      rw [hprofile] at hvalues
      exact ⟨old, replica, hfreshOld, by rw [hlog]; exact hreplay, hvalues⟩
    · exact absurd ⟨sub, hlookup, hactive, rfl⟩ (hnone sub.profile)
  constructor
  · intro r profile hr
    obtain ⟨old, replica, hfreshOld, hreplay, hvalues⟩ := hreplica r profile hr
    refine ⟨hopen, replica, hreplay, fun f => ?_⟩
    rw [hvalues f]
    split_ifs with hin
    · rcases Bool.or_eq_true_iff.mp hin with hfull | hmask
      · exact .inl (.inl (hflying.full hfull))
      · exact .inl (hflying.bits _ hmask)
    · exact hfreshOld f
  · intro hgen r profile hr
    obtain ⟨old, replica, hfreshOld, hreplay, hvalues⟩ := hreplica r profile hr
    obtain ⟨hmask, hfull⟩ := hflying.same hgen
    obtain rfl := hsame hgen
    rw [hreplay]
    congr 1
    funext f
    rw [hvalues f]
    split_ifs with hout
    · rfl
    rcases hfreshOld f with hdirty | hvalue
    · refine absurd ?_ hout
      rw [← hmask, ← hfull]
      exact Bool.or_eq_true_iff.mpr hdirty
    · exact hvalue

theorem fresh_committed (hobjects : Objects s) (hflying : Flying g s o t)
    (hdone : Delivered bit s t) (hcommit : (s.states o).commit (t.prepared updates) = (state, none))
    (hr : Active s.subs r profile) : Fresh bit (s.setState o state) r profile := by
  have hopen := hflying.enabled
  obtain rfl := hobjects o hopen
  have hset : (s.setState s.current state).states (s.setState s.current state).current = state := by
    simp only [Sync.setState, Function.update_self]
  have hcommitted := committed_commit (s.states s.current) (t.prepared updates)
  rw [hcommit] at hcommitted
  cases hcommitted with
  | clean _ _ _ hgen =>
    refine ⟨?_, _, hdone.2 hgen r profile hr, fun f => .inr rfl⟩
    rwa [hset]
  | dirty =>
    obtain ⟨-, replica, hreplay, hvalues⟩ := hdone.1 r profile hr
    refine ⟨?_, replica, hreplay, fun f => ?_⟩
    · rwa [hset]
    · unfold FreshValue
      rw [hset]
      exact hvalues f

theorem replicas_lawful : (replicas bit : RowSpec F V).Lawful bit where
  good hev hlog hgood := hgood.evolves hev hlog
  snap hev hsnap := ⟨enabled_evolves hev hsnap.1, fun f => (hsnap.2 f).evolves hev hsnap.1⟩
  pack hev hobjects hflying hpack := hpack.evolves hev hobjects hflying
  done hev hobjects hflying hsubs hlog hdone := hdone.evolves hev hobjects hflying hsubs hlog
  captured hobjects hopen := by
    rw [hobjects _ hopen] at hopen
    exact ⟨hopen, fun f => .inr rfl⟩
  admitted _ hsnap := by
    refine ⟨hsnap.1, _, ?_, hsnap.2⟩
    rw [admitAll_self]
    rfl
  packed hprofiles hupdates := packed_updates hprofiles hupdates
  delivered hobjects hkeys hflying hgood hpack hbatch :=
    delivered_admitAll hobjects hkeys hflying hgood hpack hbatch
  committed hobjects hflying hdone hcommit _ _ hr :=
    fresh_committed hobjects hflying hdone hcommit hr

end Delivery

section Runs

variable [DecidableEq F] {bit : F → Fin 64} {s : Threads (Sync F V) (PC F V)}

theorem fresh_of_reach (h : Reach (next bit) (· = initial subject sink content) opened s)
    (hr : Active s.shared.subs r profile) : Fresh bit s.shared r profile := by
  have hcalm : Reach (next bit) (· = initial subject sink content) calm s := by
    refine h.weaken ?_
    rintro s ⟨g, a⟩ hopened
    cases a <;> trivial
  have hinv := follows_of_reach replicas_lawful hcalm
  cases hop : s.shared.op with
  | none => exact hinv.shared.2 hop r profile hr
  | some g =>
    obtain ⟨hknown, hfollows⟩ := hinv.knows g
    have hpc := hknown.custody.op.mpr hop
    cases hcommit : isCommit (s.pc g) with
    | false => exact hfollows.good hpc hcommit r profile hr
    | true =>
      have hextra := hfollows.extra
      cases hat : s.pc g with
      | commit =>
        rw [hat] at hextra
        exact hextra.1 r profile hr
      | _ =>
        rw [hat] at hcommit
        cases hcommit

/-- When nothing is dirty, a subscriber has been sent the content of its profile. -/
theorem replica_converges {subject : Subject} {sink : Bool} {content : SyncProfile → F → V}
    (h : Reach (next bit) (· = initial subject sink content) opened s)
    (hclean : clean (s.shared.states s.shared.current) = true) {r : SubscriberRef}
    {sub : Subscription} (hsub : s.shared.subs.lookup r = some sub)
    (hactive : sub.state = .active) :
    replay (s.shared.log r) = some fun f => some (s.shared.content sub.profile f) := by
  obtain ⟨-, replica, hreplay, hvalues⟩ := fresh_of_reach h ⟨sub, hsub, hactive, rfl⟩
  simp only [clean, Bool.and_eq_true, decide_eq_true_eq, Bool.not_eq_true'] at hclean
  rw [hreplay]
  congr 1
  funext f
  rcases hvalues f with (hfull | hmask) | hvalue
  · rw [hclean.1.2] at hfull
    cases hfull
  · rw [hclean.1.1] at hmask
    simp at hmask
  · exact hvalue

end Runs

def openedTest (_ : Threads (Sync F V) (PC F V)) : Nat × Act F V → Bool
  | (_, .close) | (_, .load _) => false
  | _ => true

theorem opened_of_test {s : Threads (Sync F V) (PC F V)} (h : openedTest s l = true) :
    opened s l := by
  obtain ⟨g, a⟩ := l
  cases a <;> trivial

theorem replica_converges_join :
    ∃ s : Threads (Sync (Fin 2) Nat) (PC (Fin 2) Nat),
      Reach (EntitySync.next (Fin.castLE (by decide)))
          (· = initial ⟨1, "", 0⟩ true fun _ _ => 0) opened s ∧
        ∃ sub, s.shared.subs.lookup ⟨.player, 2, 0, ""⟩ = some sub ∧
          (s.shared.log ⟨.player, 2, 0, ""⟩).length = 3 ∧ s.shared.content sub.profile 1 = 8 ∧
          replay (s.shared.log ⟨.player, 2, 0, ""⟩) =
            some fun f => some (s.shared.content sub.profile f) := by
  obtain ⟨s, hreach, hclean, hsub, hlog⟩ : ∃ s : Threads (Sync (Fin 2) Nat) (PC (Fin 2) Nat),
      Reach (EntitySync.next (Fin.castLE (by decide)))
          (· = initial ⟨1, "", 0⟩ true fun _ _ => 0) opened s ∧
        clean (s.shared.states s.shared.current) = true ∧
        (s.shared.subs.lookup ⟨.player, 2, 0, ""⟩).any (fun sub =>
          sub.state = .active && s.shared.content sub.profile 1 = 8) = true ∧
        (s.shared.log ⟨.player, 2, 0, ""⟩).length = 3 := by
    exact exists_of_run rfl openedTest
      ([(0, .subscribe 0 ⟨.none, 1, 0, ""⟩ ⟨"", 0, 0⟩)] ++ List.replicate 8 (0, .run) ++
        [(0, .change 1 fun _ => 7), (0, .flush 0), (0, .run), (0, .run), (0, .run),
          (1, .subscribe 0 ⟨.none, 2, 0, ""⟩ ⟨"", 0, 0⟩)] ++ List.replicate 8 (1, .run) ++
        [(1, .change 1 fun _ => 8)] ++ List.replicate 6 (0, .run) ++ [(1, .flush 0)] ++
        List.replicate 9 (1, .run))
      (fun _ _ _ => opened_of_test) (by decide +kernel)
  obtain ⟨sub, hlookup, hfacts⟩ := (Option.any_eq_true _ _).mp hsub
  simp only [Bool.and_eq_true, decide_eq_true_eq] at hfacts
  exact ⟨s, hreach, sub, hlookup, hlog, hfacts.2, replica_converges hreach hclean hlookup hfacts.1⟩

end CubeCore.ReplicaConvergence
