import CubeCore.GroupHandles

namespace CubeCore.GroupPhases

open DispatchLocks EntityGroup GroupLockTable GroupLocks GroupHandles TransitionSystem

/-- Entities in no group, or in one of those whose locks are held. -/
def Grouped (handles : List Handle) (snaps : List DispatchGroupSnapshot) : Prop :=
  ∀ snap ∈ snaps, snap.groupID = 0 ∨ ∃ h ∈ handles, h.group = snap.groupID

/-- A lock loop over `lockEs` that began with an empty guard. -/
structure Loop (guard todo acquired lockEs : List Int) : Prop where
  acquired_of_guard : ∀ id ∈ guard, id ∈ acquired
  mem_of_acquired : ∀ id ∈ acquired, id ∈ lockEs
  mem_of_todo : ∀ id ∈ todo, id ∈ lockEs
  locked : ∀ id ∈ lockEs, id ∈ todo ∨ id ∈ guard

/-- The group of the snapshot was compared and found, or is still to be. -/
def Checked (base : Int → GroupBase) (snaps : List DispatchGroupSnapshot) (checks : List Check) :
    Prop :=
  ∀ snap ∈ snaps, .groupID snap.ent snap.groupID ∈ checks ∨
    (base snap.ent).groupLockID = snap.groupID

/-- Phases in which a goroutine has no locked entity to work on. -/
def Detached : Phase → Prop
  | .out | .joining _ _ _ | .trying _ _ (.transition _ _) | .retrying _ _ | .aborting _ _ _ => True
  | .unlocking _ after | .dropping _ _ after => after ≠ .refuse
  | _ => False

/-- Which phases go with which place in the dispatch, and what is known there. -/
inductive Fits (base : Int → GroupBase) : List Int → PC → Phase → Prop
  | idle : Detached phase → Fits base [] .idle phase
  | ending {guard : List Int} {phase : Phase} : Detached phase → Fits base guard .ending phase
  | rejecting {lockEs todo : List Int} {n : Nat} :
      Fits base [] (.resolving lockEs n) (.rejecting todo)
  | capturing {lockEs todo : List Int} {n : Nat} {snaps : List DispatchGroupSnapshot}
      {loading : Loading} :
      snaps.map DispatchGroupSnapshot.ent ++ todo = lockEs →
        Fits base [] (.resolving lockEs n) (.capturing snaps loading todo)
  | trying : snaps.map DispatchGroupSnapshot.ent = lockEs → Grouped [h] snaps →
        Fits base [] (.resolving lockEs n) (.trying h [] (.dispatch snaps))
  | resolved {lockEs : List Int} {n : Nat} {handles : List Handle}
      {snaps : List DispatchGroupSnapshot} :
      snaps.map DispatchGroupSnapshot.ent = lockEs → Grouped handles snaps →
        Fits base [] (.resolving lockEs n) (.dispatching handles snaps)
  | refused : Fits base [] (.resolving lockEs n) .refused
  | unlocking {lockEs : List Int} {n : Nat} {handles : List Handle} {after : Then} :
      (∀ req, after ≠ .retry req) → Fits base [] (.resolving lockEs n) (.unlocking handles after)
  | dropping :
      (∀ req, after ≠ .retry req) → Fits base [] (.resolving lockEs n) (.dropping h handles after)
  | locking {guard todo acquired lockEs : List Int} {n : Nat} {tryLock : Bool}
      {handles : List Handle} {snaps : List DispatchGroupSnapshot} :
      snaps.map DispatchGroupSnapshot.ent = lockEs → Grouped handles snaps →
        Loop guard todo acquired lockEs →
        Fits base guard (.locking tryLock todo acquired (.validate lockEs n))
          (.dispatching handles snaps)
  | transition {guard todo acquired : List Int} {tryLock : Bool} {req : GroupTransitionRequest}
      {handles : List Handle} :
      Loop guard todo acquired [req.entityID] →
        Fits base guard (.locking tryLock todo acquired .transition) (.locking req handles)
  | validating {guard acquired lockEs : List Int} {n : Nat} {handles : List Handle}
      {snaps : List DispatchGroupSnapshot} {checks : List Check} :
      snaps.map DispatchGroupSnapshot.ent = lockEs → Grouped handles snaps →
        Loop guard [] acquired lockEs → Checked base snaps checks →
        Fits base guard (.validating acquired lockEs n) (.validating handles snaps checks)
  | invalid {guard acquired lockEs : List Int} {n : Nat} {handles : List Handle}
      {reason : Snapshots} :
      Loop guard [] acquired lockEs →
        Fits base guard (.validating acquired lockEs n) (.invalid handles reason)
  | handler {guard acquired : List Int} {handles : List Handle}
      {snaps : List DispatchGroupSnapshot} :
      Fits base guard (.handler (.dispatch acquired)) (.dispatching handles snaps)
  | casting {guard acquired todo lockedNow : List Int} {handles : List Handle}
      {snaps : List DispatchGroupSnapshot} :
      Fits base guard (.casting (.dispatch acquired) todo lockedNow) (.dispatching handles snaps)
  | broadcast {guard rest : List Int} : Fits base guard (.broadcast rest) .out
  | requiring {guard rest : List Int} {id : Int} : Fits base guard (.requiring id rest) .out
  | broadcastHandler {guard rest : List Int} {id : Int} :
      Fits base guard (.handler (.broadcast id rest)) .out
  | broadcastCasting {guard rest todo lockedNow : List Int} {id : Int} :
      Fits base guard (.casting (.broadcast id rest) todo lockedNow) .out
  | updating {guard acquired : List Int} {req : GroupTransitionRequest} {handles : List Handle}
      {stage : Stage} :
      req.entityID ∈ guard → Fits base guard (.updating acquired) (.updating req handles stage)

variable {base base' : Int → GroupBase} {guard guard' : List Int} {pc pc' : PC}
  {phase phase' : Phase}

theorem Fits.frame (h : Fits base guard pc phase)
    (hsame : ∀ id ∈ guard, (base' id).groupLockID = (base id).groupLockID) :
    Fits base' guard pc phase := by
  cases h with
  | idle hd => exact .idle hd
  | ending hd => exact .ending hd
  | rejecting => exact .rejecting
  | capturing hsnaps => exact .capturing hsnaps
  | trying hsnaps hgrouped => exact .trying hsnaps hgrouped
  | resolved hsnaps hgrouped => exact .resolved hsnaps hgrouped
  | refused => exact .refused
  | unlocking hafter => exact .unlocking hafter
  | dropping hafter => exact .dropping hafter
  | locking hsnaps hgrouped hloop => exact .locking hsnaps hgrouped hloop
  | transition hloop => exact .transition hloop
  | validating hsnaps hgrouped hloop hchecked =>
    refine .validating hsnaps hgrouped hloop fun snap hsnap => ?_
    have hlocked : snap.ent ∈ guard := by
      have hmem : snap.ent ∈ _ := hsnaps ▸ List.mem_map_of_mem hsnap
      exact (hloop.locked _ hmem).resolve_left List.not_mem_nil
    rw [hsame _ hlocked]
    exact hchecked snap hsnap
  | invalid hloop => exact .invalid hloop
  | handler => exact .handler
  | casting => exact .casting
  | broadcast => exact .broadcast
  | requiring => exact .requiring
  | broadcastHandler => exact .broadcastHandler
  | broadcastCasting => exact .broadcastCasting
  | updating hmem => exact .updating hmem

variable {req : GroupTransitionRequest} {stage : Stage}

theorem Fits.locked_of_updating (h : Fits base guard pc (.updating req handles stage)) :
    req.entityID ∈ guard := by
  cases h with
  | updating hmem => exact hmem
  | idle hd | ending hd => exact hd.elim

variable {snaps : List DispatchGroupSnapshot}

theorem grouped_resolveFrom (h : resolveFrom groupID snaps = some common) :
    (groupID = 0 ∨ groupID = common) ∧
      ∀ snap ∈ snaps, snap.groupID = 0 ∨ snap.groupID = common := by
  induction snaps generalizing groupID with
  | nil => exact ⟨.inr (Option.some.inj h), by simp⟩
  | cons snap snaps ih =>
    simp only [resolveFrom] at h
    split at h
    · rename_i hzero
      obtain ⟨hgroup, hall⟩ := ih h
      refine ⟨hgroup, ?_⟩
      simpa [hzero] using hall
    split at h
    · rename_i hsnap hzero
      obtain ⟨hgroup, hall⟩ := ih h
      refine ⟨.inl hzero, ?_⟩
      simpa using ⟨hgroup, hall⟩
    split_ifs at h with hsame
    obtain ⟨hgroup, hall⟩ := ih h
    refine ⟨hgroup, ?_⟩
    have heq : snap.groupID = groupID := (not_not.mp hsame).symm
    simpa [heq] using ⟨hgroup, hall⟩

variable {g : Nat} {sh sh' : Shared} {ok : Bool}

variable {lockEs : List Int}

theorem fits_resolve (hsnaps : snaps.map DispatchGroupSnapshot.ent = lockEs) :
    Fits base [] (.resolving lockEs n) (resolve g sh snaps).1 := by
  unfold resolve
  split
  · exact .refused
  rename_i groupID hresolve
  obtain ⟨_, hgroups⟩ := grouped_resolveFrom hresolve
  split_ifs with hzero
  · refine .resolved hsnaps fun snap hsnap => .inl ?_
    simpa [hzero] using hgroups snap hsnap
  refine .trying hsnaps fun snap hsnap => ?_
  rcases hgroups snap hsnap with hnone | hsome
  · exact .inl hnone
  · exact .inr ⟨_, List.mem_singleton.mpr rfl, by rw [reference_group, hsome]⟩

theorem detached_groupStep (hpc : pc = .idle ∨ pc = .ending) (hd : Detached phase)
    (h : groupStep g pc sh phase ok = some (phase', sh')) : Detached phase' := by
  apply of_eq_some (P := fun r => Detached r.1) h
  fun_cases groupStep g pc sh phase ok with
  | case8 _ _ purpose | case9 _ _ purpose =>
    cases purpose with
    | dispatch => exact absurd hd id
    | transition => first | trivial | exact Then.noConfusion
  | case10 | case11 => exact hd
  | case12 after =>
    cases after with
    | done => rcases hpc with rfl | rfl <;> trivial
    | refuse => exact absurd rfl hd
    | retry => trivial
  | case15 | case18 | case19 =>
    trivial
  | case17 | case20 => exact Then.noConfusion
  | case21 => trivial
  | _ => exact absurd hd id

theorem checked_run (hchecked : Checked base snaps (check :: checks))
    (hrun : check.run base = .same) :
    Checked base snaps checks := by
  intro snap hsnap
  rcases hchecked snap hsnap with htodo | hfound
  · rcases List.mem_cons.mp htodo with rfl | htail
    · simp only [Check.run] at hrun
      split_ifs at hrun with hsame
      exact .inr (not_not.mp hsame)
    · exact .inl htail
  · exact .inr hfound

theorem fits_groupStep (hfit : Fits sh.base guard pc phase)
    (h : groupStep g pc sh phase ok = some (phase', sh')) : Fits sh'.base guard pc phase' := by
  cases hfit with
  | idle hd => exact .idle (detached_groupStep (.inl rfl) hd h)
  | ending hd => exact .ending (detached_groupStep (.inr rfl) hd h)
  | @rejecting _ todo =>
    cases todo with
    | nil =>
      cases h
      exact .capturing rfl
    | cons =>
      cases h
      split
      · exact .refused
      · exact .rejecting
  | @capturing lockEs todo n snaps loading hsnaps =>
    cases todo with
    | nil =>
      have heq : resolve g sh snaps = (phase', sh') := by
        cases loading <;> exact Option.some.inj h
      have hfit : Fits sh'.base [] (.resolving lockEs n) (resolve g sh snaps).1 :=
        fits_resolve ((List.append_nil _).symm.trans hsnaps)
      rwa [heq] at hfit
    | cons =>
      cases loading with
      | targetID =>
        cases h
        refine .capturing ?_
        simpa using hsnaps
      | _ =>
        cases h
        exact .capturing hsnaps
  | trying hsnaps hgrouped =>
    simp only [groupStep] at h
    split at h
    · cases h
      exact .resolved hsnaps hgrouped
    · cases h
      exact .dropping fun _ => Then.noConfusion
  | resolved | refused | locking | transition | invalid | handler | casting | broadcast
  | requiring | broadcastHandler | broadcastCasting => cases h
  | @unlocking _ _ handles after hafter =>
    cases handles with
    | nil =>
      cases h
      cases after with
      | done => exact .capturing rfl
      | refuse => exact .refused
      | retry req => exact absurd rfl (hafter req)
    | cons =>
      cases h
      exact .dropping hafter
  | dropping hafter =>
    cases h
    exact .unlocking hafter
  | @validating guard acquired lockEs n handles snaps checks hsnaps hgrouped hloop hchecked =>
    cases checks with
    | nil => cases h
    | cons =>
      simp only [groupStep] at h
      split at h
      · rename_i hrun
        cases h
        exact .validating hsnaps hgrouped hloop (checked_run hchecked hrun)
      · cases h
        exact .invalid hloop
  | updating hmem =>
    obtain ⟨⟨stage', sh''⟩, _, heq⟩ := Option.map_eq_some_iff.mp h
    cases heq
    exact .updating hmem

variable {id : Int} {todo acquired : List Int}

theorem Loop.skip (h : Loop guard (id :: todo) acquired lockEs) (hmem : id ∈ guard) :
    Loop guard todo acquired lockEs := by
  refine ⟨h.acquired_of_guard, h.mem_of_acquired, ?_, ?_⟩
  · exact fun id' hid => h.mem_of_todo id' (List.mem_cons_of_mem _ hid)
  intro id' hid
  rcases h.locked id' hid with htodo | hguard
  · rcases List.mem_cons.mp htodo with rfl | htail
    · exact .inr hmem
    · exact .inl htail
  · exact .inr hguard

theorem Loop.lock (h : Loop guard (id :: todo) acquired lockEs) :
    Loop (guard ++ [id]) todo (acquired ++ [id]) lockEs := by
  have hid : id ∈ lockEs := h.mem_of_todo id List.mem_cons_self
  refine ⟨?_, ?_, ?_, ?_⟩
  · intro id' hmem
    rcases List.mem_append.mp hmem with hold | hnew
    · exact List.mem_append_left _ (h.acquired_of_guard id' hold)
    · exact List.mem_append_right _ hnew
  · rw [List.forall_mem_append, List.forall_mem_singleton]
    exact ⟨h.mem_of_acquired, hid⟩
  · exact fun id' hmem => h.mem_of_todo id' (List.mem_cons_of_mem _ hmem)
  · intro id' hmem
    rcases h.locked id' hmem with htodo | hguard
    · rcases List.mem_cons.mp htodo with rfl | htail
      · exact .inr (by simp)
      · exact .inl htail
    · exact .inr (List.mem_append_left _ hguard)

theorem Loop.without (h : Loop guard todo acquired lockEs) : without guard acquired = [] := by
  rw [List.eq_nil_iff_forall_not_mem]
  intro id hmem
  obtain ⟨hguard, hout⟩ := mem_without.mp hmem
  exact hout (h.acquired_of_guard id hguard)

theorem loop_start (lockEs : List Int) : Loop [] lockEs [] lockEs :=
  ⟨by simp, by simp, fun _ => id, fun _ h => .inl h⟩

variable {groupOf : Int → Int} {free : Int → Bool} {a : Act}

theorem fits_start (hfollow : follow base (begin groupOf d) (.start d) phase = some phase') :
    Fits base [] (begin groupOf d) phase' := by
  have hentities : ∀ es, follow base (lockEntities groupOf es) (.start (.multi es)) .out =
      some phase' → Fits base [] (lockEntities groupOf es) phase' := by
    intro es hstart
    simp only [lockEntities] at hstart ⊢
    split at hstart
    · cases hstart
      exact .rejecting
    · cases hstart
      exact .ending trivial
  cases d with
  | single e =>
    cases phase with
    | out =>
      cases e with
      | none =>
        cases hfollow
        exact .ending trivial
      | some =>
        cases hfollow
        exact .rejecting
    | _ => cases hfollow
  | multi es =>
    cases phase with
    | out => exact hentities es hfollow
    | _ => cases hfollow
  | multiGroup groups =>
    cases phase with
    | out => exact hentities groups.flatten hfollow
    | _ => cases hfollow
  | broadcast =>
    cases phase with
    | out =>
      cases hfollow
      exact .broadcast
    | _ => cases hfollow
  | groupTransition e =>
    cases e with
    | none =>
      cases phase with
      | out =>
        cases hfollow
        exact .ending trivial
      | _ => cases hfollow
    | some e =>
      cases phase with
      | joining _ todo =>
        cases todo with
        | nil =>
          simp only [follow] at hfollow
          split_ifs at hfollow with heq
          cases hfollow
          exact .transition (heq ▸ loop_start [e])
        | cons => cases hfollow
      | _ => cases hfollow

/-- The phases of a goroutine that runs a handler: of a broadcast, or of a dispatch. -/
def Handling (phase : Phase) : Prop :=
  phase = .out ∨ ∃ handles snaps, phase = .dispatching handles snaps

theorem fits_entityStep (hfit : Fits base guard pc phase)
    (h : Stepped groupOf free guard pc a guard' pc')
    (hfollow : follow base pc' a phase = some phase') : Fits base guard' pc' phase' := by
  cases hfit with
  | idle =>
    cases h
    exact fits_start hfollow
  | ending =>
    cases h
    cases phase with
    | out =>
      cases hfollow
      exact .idle trivial
    | _ => cases hfollow
  | @resolved lockEs _ handles _ hsnaps hgrouped =>
    cases h with
    | refused => cases hfollow
    | _ =>
      cases handles <;> cases hfollow
      exact .locking hsnaps hgrouped (loop_start lockEs)
  | refused =>
    cases h <;> cases hfollow
    exact .ending trivial
  | locking hsnaps hgrouped hloop =>
    cases h with
    | locked =>
      cases hfollow
      refine .validating hsnaps hgrouped hloop fun snap hsnap => .inl ?_
      exact List.mem_flatMap.mpr ⟨snap, hsnap, by simp [DispatchGroupSnapshot.checks]⟩
    | skip hmem =>
      cases hfollow
      exact .locking hsnaps hgrouped (hloop.skip hmem)
    | lock =>
      cases hfollow
      exact .locking hsnaps hgrouped hloop.lock
    | _ =>
      cases hfollow
      exact .ending Then.noConfusion
  | @transition _ _ _ _ req _ hloop =>
    cases h with
    | lockedOne =>
      cases hfollow
      have hlocked := hloop.locked req.entityID (List.mem_singleton.mpr rfl)
      exact .updating (hlocked.resolve_left List.not_mem_nil)
    | skip hmem =>
      cases hfollow
      exact .transition (hloop.skip hmem)
    | lock =>
      cases hfollow
      exact .transition hloop.lock
    | _ =>
      cases hfollow
      exact .ending trivial
  | @validating _ _ _ _ _ _ checks =>
    cases h with
    | same =>
      cases checks <;> cases hfollow
      exact .handler
    | _ => cases hfollow
  | @invalid _ _ _ _ _ reason hloop =>
    cases h with
    | same => cases hfollow
    | retry =>
      cases reason <;> cases hfollow
      rw [hloop.without]
      exact .unlocking fun _ => Then.noConfusion
    | _ =>
      cases reason <;> cases hfollow
      exact .ending Then.noConfusion
  | handler =>
    cases h with
    | cast =>
      cases hfollow
      exact .casting
    | create =>
      simp only [follow] at hfollow
      split at hfollow <;> cases hfollow
      exact .handler
    | returns =>
      cases hfollow
      exact .ending Then.noConfusion
    | _ =>
      cases hfollow
      exact .handler
  | casting =>
    cases h <;> cases hfollow
    all_goals first | exact .handler | exact .casting
  | broadcast =>
    cases h <;> cases hfollow
    · exact .requiring
    · exact .broadcast
    · exact .ending trivial
  | requiring =>
    cases h <;> cases hfollow
    · exact .broadcastHandler
    · exact .broadcastHandler
    · exact .broadcast
  | broadcastHandler =>
    cases h with
    | cast =>
      cases hfollow
      exact .broadcastCasting
    | create =>
      simp only [follow] at hfollow
      split at hfollow <;> cases hfollow
      exact .broadcastHandler
    | broadcastReturns =>
      cases hfollow
      exact .broadcast
    | _ =>
      cases hfollow
      exact .broadcastHandler
  | broadcastCasting =>
    cases h <;> cases hfollow
    all_goals first | exact .broadcastHandler | exact .broadcastCasting
  | @updating _ _ _ _ stage =>
    cases h
    cases stage <;> cases hfollow
    exact .ending Then.noConfusion
  | _ => cases h <;> cases hfollow

end CubeCore.GroupPhases
