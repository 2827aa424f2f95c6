import CubeCore.GroupPhases

namespace CubeCore.GroupExclusion

open DispatchLocks EntityGroup GroupLockTable GroupLocks GroupHandles GroupPhases TransitionSystem
open Option List Function

variable {groupOf : Int → Int} {s s' : Groups} {g : Nat}

/-- What holds in every run, with or without a condition on its steps. -/
structure WellFormed (s : Groups) : Prop where
  owned : Owned s.locks
  fits : ∀ g, Fits s.shared.base (s.locks.guard g) (s.locks.pc g) (s.phase g)
  table : TableSound s.shared.groupLocks s.phase
  distinct : ∀ g, Distinct (s.phase g)

variable {id : Int}

theorem WellFormed.disjoint (h : WellFormed s) (hg : g' ≠ g) (hid : id ∈ s.locks.guard g) :
    id ∉ s.locks.guard g' := by
  intro hid'
  have heq := ((h.owned id g').mpr hid').symm.trans ((h.owned id g).mpr hid)
  exact hg (some.inj heq)

theorem wellFormed_initial (base : Int → GroupBase) : WellFormed (GroupLocks.initial base) where
  owned := (@ordered_initial fun _ => 0).owned
  fits _ := .idle trivial
  table := sound_empty (fun _ _ => not_mem_nil) (fun _ _ => not_mem_nil)
  distinct _ := nodup_nil

theorem distinct_update (h : ∀ g, Distinct (s.phase g))
    (hstep : TableStep g s.shared.groupLocks (s.phase g) t phase) (g' : Nat) :
    Distinct (update s.phase g phase g') := by
  rcases eq_or_ne g' g with rfl | hg
  · simpa using (h g').tableStep hstep
  · simpa [hg] using h g'

theorem WellFormed.request (h : WellFormed s) {sh : Shared} {storing}
    (hlocks : sh.groupLocks = s.shared.groupLocks)
    (hbase : ∀ id, (sh.base id).groupLockID = (s.shared.base id).groupLockID) :
    WellFormed { s with shared := sh, storing := storing } where
  __ := h
  fits g := (h.fits g).frame fun id _ => hbase id
  table := by
    rw [hlocks]
    exact h.table

/-- The steps of a goroutine, and those of a request, which leave every entity in its group. -/
inductive Moved (groupOf : Int → Int) (s : Groups) (g : Nat) : Label → Groups → Prop where
  | entity (hstep : Stepped groupOf (fun e => (s.locks.owner e).isNone) (s.locks.guard g)
        (s.locks.pc g) a ids pc) (hfollow : follow s.shared.base pc a (s.phase g) = some phase) :
      Moved groupOf s g (.entity a) { s with
        locks := s.locks.settle g ids pc
        phase := Function.update s.phase g phase }
  | group (hstep : groupStep g (s.locks.pc g) s.shared (s.phase g) ok = some (phase, sh)) :
      Moved groupOf s g (.group ok) (s.settle g phase sh)
  | transition (hpc : s.locks.pc g = .idle) :
      Moved groupOf s g (.transition req) (s.settle g
        (.joining req (transitionLockGroupIDs (s.shared.base req.entityID).groupLockID
          req.targetGroupID req.state) [])
        { s.shared with requests := s.shared.requests.erase req })
  | request (hlocks : sh.groupLocks = s.shared.groupLocks)
      (hsame : ∀ e, (sh.base e).groupLockID = (s.shared.base e).groupLockID) :
      Moved groupOf s g l { s with shared := sh, storing := storing }

variable {l : Nat × Label}

theorem moved_of_next (h : GroupLocks.next groupOf s l = some s') : Moved groupOf s l.1 l.2 s' := by
  obtain ⟨g, label⟩ := l
  cases label with
  | entity =>
    obtain ⟨⟨guard, pc⟩, hlocal, hr⟩ := bind_eq_some_iff.mp h
    obtain ⟨phase, hfollow, rfl⟩ := map_eq_some_iff.mp hr
    exact .entity (stepped_of_localStep hlocal) hfollow
  | group =>
    obtain ⟨⟨phase, sh⟩, hstep, rfl⟩ := map_eq_some_iff.mp h
    exact .group hstep
  | transition =>
    simp only [GroupLocks.next, takeTransition] at h
    split at h
    · rename_i hpc _
      split_ifs at h
      cases h
      exact .transition hpc
    · cases h
  | begin req =>
    simp only [GroupLocks.next, beginGroupTransition] at h
    split_ifs at h
    cases h
    exact .request rfl (modify_groupLockID s.shared req.entityID fun _ => rfl)
  | storeTarget =>
    simp only [GroupLocks.next, storeTarget] at h
    split_ifs at h
    cases h
    refine .request rfl fun id => ?_
    dsimp only
    rw [modify_groupLockID]
    exact fun _ => rfl

theorem Moved.groupLockID (hmoved : Moved groupOf s g label s') (h : WellFormed s)
    (hchanged : (s'.shared.base id).groupLockID ≠ (s.shared.base id).groupLockID) :
    id ∈ s.locks.guard g := by
  cases hmoved with
  | group hstep =>
    obtain ⟨req, handles, stage, hphase, rfl⟩ :=
      ((tableStep_groupStep hstep).2 id).resolve_left hchanged
    exact (hphase ▸ h.fits g).locked_of_updating
  | request _ hsame => exact absurd (hsame id) hchanged
  | _ => exact absurd rfl hchanged

theorem wellFormed_settle (h : WellFormed s)
    (hfit : Fits sh.base (s.locks.guard g) (s.locks.pc g) phase)
    (htable : TableStep g s.shared.groupLocks (s.phase g) sh.groupLocks phase)
    (hbase : ∀ id, (sh.base id).groupLockID ≠ (s.shared.base id).groupLockID →
      id ∈ s.locks.guard g) : WellFormed (s.settle g phase sh) := by
  refine ⟨h.owned, fun g' => ?_, h.table.step (h.distinct g) htable,
    distinct_update h.distinct htable⟩
  rcases eq_or_ne g' g with rfl | hg
  · simpa [Groups.settle] using hfit
  have hother : Fits sh.base (s.locks.guard g') (s.locks.pc g') (s.phase g') := by
    refine (h.fits g').frame fun id hid => ?_
    by_contra hchanged
    exact h.disjoint hg (hbase id hchanged) hid
  simpa [Groups.settle, hg] using hother

theorem Moved.wellFormed (hmoved : Moved groupOf s g label s') (h : WellFormed s) :
    WellFormed s' := by
  have hbase : ∀ id, (s'.shared.base id).groupLockID ≠ (s.shared.base id).groupLockID →
      id ∈ s.locks.guard g := fun id => hmoved.groupLockID h
  cases hmoved with
  | entity hstep hfollow =>
    refine ⟨owned_settle h.owned fun id hid => hstep.free_of_mem hid, fun g' => ?_, ?_, ?_⟩
    · rcases eq_or_ne g' g with rfl | hg
      · simpa [Locks.settle] using fits_entityStep (h.fits g') hstep hfollow
      · simpa [Locks.settle, hg] using h.fits g'
    · exact h.table.step (h.distinct g) (tableStep_follow hfollow)
    · exact distinct_update h.distinct (tableStep_follow (t := s.shared.groupLocks) hfollow)
  | group hstep =>
    exact wellFormed_settle h (fits_groupStep (h.fits g) hstep) (tableStep_groupStep hstep).1 hbase
  | transition hpc =>
    have hfit := h.fits g
    rw [hpc] at hfit
    generalize hguard : s.locks.guard g = guard at hfit
    cases hfit with
    | idle =>
      refine wellFormed_settle h ?_ (.ask rfl (nodup_transitionLockGroupIDs _ _ _)) hbase
      rw [hpc, hguard]
      exact .idle trivial
  | request hlocks hsame => exact h.request hlocks hsame

variable {base : Int → GroupBase}

theorem wellFormed_of_reach {guard}
    (h : Reach (GroupLocks.next groupOf) (· = GroupLocks.initial base) guard s) : WellFormed s := by
  refine h.invariant ?_ ?_
  · rintro _ rfl
    exact wellFormed_initial base
  · intro s l s' hinv _ hnext
    exact (moved_of_next hnext).wellFormed hinv

def running : PC → Bool
  | .handler _ | .casting _ _ _ => true
  | _ => false

/-- Places at which no dispatch is between its snapshots and their validation. -/
def settled : PC → Bool
  | .broadcast _ | .requiring _ _ => true
  | pc => running pc

/-- The entity that a cast or a broadcast is about to lock. -/
def locksNext : PC → Option Int
  | .casting _ (id :: _) _ => some id
  | .requiring id _ => some id
  | _ => none

/-- In no group, or in one whose lock is held. -/
def InGroups (base : Int → GroupBase) (handles : List Handle) (id : Int) : Prop :=
  (base id).groupLockID = 0 ∨ ∃ h ∈ handles, h.group = (base id).groupLockID

/-- A broadcast or a cast locks only entities of no group, or of the group its dispatch has
locked. -/
def locksInGroup (s : Groups) (l : Nat × Label) : Prop :=
  ∀ id, locksNext (s.locks.pc l.1) = some id → l.2 = .entity (.lock true) →
    InGroups s.shared.base (held (s.phase l.1)) id

variable {guard : List Int} {pc : PC}

theorem settled_stepped (h : Stepped groupOf free guard pc a guard' pc')
    (hsettled : settled pc' = true) :
    (settled pc = true ∧ ∀ id ∈ guard', id ∈ guard ∨ (locksNext pc = some id ∧ a = .lock true) ∨
        a = .createInScope id) ∨
      (pc = .idle ∨ ∃ acquired lockEs n, pc = .validating acquired lockEs n ∧
        a = .validate .same) ∧ guard' = guard := by
  have hlocked : ∀ {id' : Int} {P : Int → Prop}, P id' → ∀ id ∈ guard ++ [id'],
      id ∈ guard ∨ P id := by
    intro id' P hP id hid
    rcases mem_append.mp hid with hold | hnew
    · exact .inl hold
    · exact .inr (mem_singleton.mp hnew ▸ hP)
  have hkept : ∀ {ids : List Int} {P : Int → Prop}, ∀ id ∈ without guard ids, id ∈ guard ∨ P id :=
    fun _ hid => .inl (mem_without.mp hid).1
  cases h with
  | start => exact .inr ⟨.inl rfl, rfl⟩
  | same => exact .inr ⟨.inr ⟨_, _, _, rfl, rfl⟩, rfl⟩
  | castLock _ hlive | requireLock _ hlive => exact .inl ⟨rfl, hlocked (.inl ⟨rfl, by rw [hlive]⟩)⟩
  | create => exact .inl ⟨rfl, hlocked (.inr rfl)⟩
  | _ =>
    first
    | exact .inl ⟨rfl, fun _ hid => .inl hid⟩
    | exact .inl ⟨rfl, hkept⟩
    | cases hsettled

/-- Every goroutine at a settled place holds the locks of its entities' groups. -/
def Covered (s : Groups) : Prop :=
  ∀ g, settled (s.locks.pc g) = true →
    ∀ id ∈ s.locks.guard g, InGroups s.shared.base (held (s.phase g)) id

theorem InGroups.congr (h : InGroups base handles id)
    (hbase : (base' id).groupLockID = (base id).groupLockID) (hheld : ∀ h ∈ handles, h ∈ handles') :
    InGroups base' handles' id := by
  rcases h with hzero | ⟨handle, hmem, hgroup⟩
  · exact .inl (hbase.trans hzero)
  · exact .inr ⟨handle, hheld handle hmem, hgroup.trans hbase.symm⟩

theorem covered_entity (hfit : Fits base guard pc phase)
    (hcov : settled pc = true → ∀ id ∈ guard, InGroups base (held phase) id)
    (hcond : ∀ id, locksNext pc = some id → a = .lock true → InGroups base (held phase) id)
    (h : Stepped groupOf free guard pc a guard' pc')
    (hfollow : follow base pc' a phase = some phase') (hsettled : settled pc' = true) :
    ∀ id ∈ guard', InGroups base (held phase') id := by
  have hheld : ∀ h ∈ held phase, h ∈ held phase' :=
    fun _ hmem => (handles_follow hfollow).2.1.symm.subset hmem
  intro id hid
  rcases settled_stepped h hsettled with ⟨hpc, hguard⟩ | ⟨hpc, rfl⟩
  · rcases hguard id hid with hold | ⟨hnext, hlock⟩ | hcreate
    · exact (hcov hpc id hold).congr rfl hheld
    · exact (hcond id hnext hlock).congr rfl hheld
    · subst hcreate
      simp only [follow] at hfollow
      split_ifs at hfollow with hzero
      exact .inl (by rw [hzero]; rfl)
  rcases hpc with rfl | ⟨acquired, lockEs, n, rfl, rfl⟩
  · cases hfit with
    | idle => exact absurd hid not_mem_nil
  cases hfit with
  | @validating _ _ _ _ handles snaps checks hsnaps hgrouped hloop hchecked =>
    cases checks with
    | nil =>
      have hmem := hloop.mem_of_acquired id (hloop.acquired_of_guard id hid)
      rw [← hsnaps] at hmem
      obtain ⟨snap, hsnap, rfl⟩ := mem_map.mp hmem
      have hgroup := (hchecked snap hsnap).resolve_left not_mem_nil
      rcases hgrouped snap hsnap with hzero | ⟨handle, hhandle, heq⟩
      · exact .inl (hgroup.trans hzero)
      · exact .inr ⟨handle, hheld handle hhandle, heq.trans hgroup.symm⟩
    | cons => cases hfollow
  | invalid => cases hfollow

theorem handling_of_settled (hfit : Fits base guard pc phase) (hsettled : settled pc = true) :
    Handling phase := by
  cases hfit with
  | handler | casting => exact .inr ⟨_, _, rfl⟩
  | broadcast | requiring | broadcastHandler | broadcastCasting => exact .inl rfl
  | _ => cases hsettled

theorem covered_next (hwf : WellFormed s) (hcov : Covered s) (hcond : locksInGroup s l)
    (hnext : GroupLocks.next groupOf s l = some s') : Covered s' := by
  have hmoved := moved_of_next hnext
  have hbase : ∀ {g id}, g ≠ l.1 → id ∈ s.locks.guard g →
      (s'.shared.base id).groupLockID = (s.shared.base id).groupLockID := by
    intro g id hg hid
    by_contra hchanged
    exact hwf.disjoint hg (hmoved.groupLockID hwf hchanged) hid
  obtain ⟨g, label⟩ := l
  intro g' hsettled id hid
  cases hmoved with
  | entity hstep hfollow =>
    rcases eq_or_ne g' g with rfl | hg
    · simp only [Locks.settle, update_self] at hsettled hid ⊢
      refine covered_entity (hwf.fits g') (hcov g') (fun id hlocks hact => ?_) hstep hfollow
        hsettled id hid
      exact hcond id hlocks (by rw [hact])
    · simp only [Locks.settle, update_of_ne hg] at hsettled hid ⊢
      exact hcov g' hsettled id hid
  | group hstep =>
    rcases eq_or_ne g' g with rfl | hg
    · rcases handling_of_settled (hwf.fits g') hsettled with hphase | ⟨_, _, hphase⟩ <;>
        · rw [hphase] at hstep
          cases hstep
    · have hin := hcov g' hsettled id hid
      have hsame := hin.congr (hbase hg hid) fun _ hmem => hmem
      simpa [Groups.settle, hg] using hsame
  | transition hpc =>
    rcases eq_or_ne g' g with rfl | hg
    · simp [Groups.settle, hpc, settled, running] at hsettled
    · simpa [Groups.settle, hg] using hcov g' hsettled id hid
  | request _ hsame => exact (hcov g' hsettled id hid).congr (hsame id) fun _ hmem => hmem

theorem covered_of_reach
    (h : Reach (GroupLocks.next groupOf) (· = GroupLocks.initial base) locksInGroup s) :
    Covered s := by
  refine h.invariant_of (fun _ => wellFormed_of_reach) ?_ ?_
  · rintro _ rfl g hsettled
    cases hsettled
  · intro s l s' hwf hcov hcond hnext
    exact covered_next hwf hcov hcond hnext

/-- No two handlers run at the same time that have locked members of one group. -/
def Exclusive (s : Groups) : Prop :=
  ∀ g g' id id', running (s.locks.pc g) = true → running (s.locks.pc g') = true →
    id ∈ s.locks.guard g → id' ∈ s.locks.guard g' →
    (s.shared.base id).groupLockID = (s.shared.base id').groupLockID →
    (s.shared.base id).groupLockID ≠ 0 → g = g'

theorem settled_of_running (h : running pc = true) : settled pc = true := by
  cases pc with
  | handler | casting => rfl
  | _ => cases h

theorem exclusive_of_covered (hwf : WellFormed s) (hcov : Covered s) : Exclusive s := by
  intro g g' id id' hrun hrun' hid hid' hgroup hne
  have hin := (hcov g (settled_of_running hrun) id hid).resolve_left hne
  have hin' := (hcov g' (settled_of_running hrun') id' hid').resolve_left (hgroup ▸ hne)
  obtain ⟨h, hheld, heq⟩ := hin
  obtain ⟨h', hheld', heq'⟩ := hin'
  exact hwf.table.exclusive hheld hheld' (heq.trans (hgroup.trans heq'.symm))

theorem group_exclusion (groupOf : Int → Int) (base : Int → GroupBase) :
    (∀ s, Reach (GroupLocks.next groupOf) (· = GroupLocks.initial base) locksInGroup s →
      Exclusive s) ∧
    ∀ s, Reach (GroupLocks.next groupOf) (· = GroupLocks.initial base) anyStep s →
      ∀ l s', GroupLocks.next groupOf s l = some s' →
        ∀ id, (s'.shared.base id).groupLockID ≠ (s.shared.base id).groupLockID →
          ∀ g, g ≠ l.1 → id ∉ s.locks.guard g := by
  constructor
  · intro s h
    exact exclusive_of_covered (wellFormed_of_reach h) (covered_of_reach h)
  · intro s h l s' hnext id hchanged g hg
    have hwf := wellFormed_of_reach h
    exact hwf.disjoint hg ((moved_of_next hnext).groupLockID hwf hchanged)

instance (base : Int → GroupBase) (handles : List Handle) (id : Int) :
    Decidable (InGroups base handles id) :=
  inferInstanceAs (Decidable (_ ∨ ∃ h ∈ handles, h.group = _))

def locksTest (s : Groups) (l : Nat × Label) : Bool :=
  match locksNext (s.locks.pc l.1), l.2 with
  | some id, .entity (.lock true) => decide (InGroups s.shared.base (held (s.phase l.1)) id)
  | _, _ => true

theorem locksInGroup_of_test (h : locksTest s l = true) : locksInGroup s l := by
  intro id hnext hlabel
  rw [locksTest, hnext, hlabel] at h
  exact of_decide_eq_true h

/-- Player 101 and alliance 201 are in the lock group 7. -/
def teamBase (id : Int) : GroupBase :=
  if id = 101 ∨ id = 201 then { GroupBase.zero with groupLockID := 7 } else .zero

/-- A dispatch to player 101 that takes the lock of group 7 and runs its handler. -/
def teamDispatch : List (Nat × Label) :=
  (0, .entity (.start (.single (some 101)))) :: List.replicate 8 (0, .group true) ++
    [(0, .entity (.resolve .held)), (0, .entity (.lock true)), (0, .entity .loopDone)] ++
    List.replicate 5 (0, .group true) ++ [(0, .entity (.validate .same))]

def broadcastTo (id : Int) : List (Nat × Label) :=
  [(1, .entity (.start (.broadcast [id]))), (1, .entity (.next true)), (1, .entity (.lock true))]

def castTo (id : Int) : List (Nat × Label) :=
  [(0, .entity (.castMulti [id] true)), (0, .entity (.lock true)), (0, .entity .loopDone)]

/-- A request to let `req.entityID` join a group, up to the change of the group. -/
def joinUpToSwap (req : GroupTransitionRequest) : List (Nat × Label) :=
  [(3, .begin req), (3, .storeTarget req), (2, .transition req), (2, .group true),
    (2, .group true), (2, .entity (.start (.groupTransition (some req.entityID)))),
    (2, .entity (.lock true)), (2, .entity .loopDone), (2, .group true), (2, .group true),
    (2, .group true)]

/-- At most one goroutine has the lock of a group, and nobody drops an entry that is referred to. -/
theorem group_lock_held_once
    (h : Reach (GroupLocks.next groupOf) (· = GroupLocks.initial base) anyStep s) :
    (∀ g, ∀ k ∈ refs (s.phase g), s.shared.groupLocks.locks k.group = some k.entry) ∧
      ∀ g, ∀ k ∈ held (s.phase g), (s.shared.groupLocks.entry k.entry).owner = some g ∧
        ∀ g', ∀ k' ∈ held (s.phase g'), k'.group = k.group → g' = g ∧ k' = k := by
  have hs := (wellFormed_of_reach h).table
  refine ⟨fun g k hk => hs.listed hk, fun g k hk => ⟨hs.locked hk, fun g' k' hk' hgroup => ?_⟩⟩
  have hlisted := hs.listed (hs.referenced hk')
  rw [hgroup, hs.listed (hs.referenced hk)] at hlisted
  refine ⟨hs.exclusive hk' hk hgroup, ?_⟩
  exact hs.entry_injective (hs.referenced hk') (hs.referenced hk) (some.inj hlisted).symm

theorem group_lock_held_once_team :
    ∃ s, Reach (GroupLocks.next hundreds) (· = GroupLocks.initial teamBase) anyStep s ∧
      ∃ k ∈ held (s.phase 0), k.group = 7 ∧ (s.shared.groupLocks.entry k.entry).owner = some 0 := by
  refine exists_reach_imp (P := fun s => ⟨7, 0⟩ ∈ held (s.phase 0))
    (exists_of_anyRun rfl teamDispatch (by decide +kernel)) ?_
  intro s hreach hheld
  exact ⟨⟨7, 0⟩, hheld, rfl, ((group_lock_held_once hreach).2 0 _ hheld).1⟩

theorem group_exclusion_team :
    ∃ s s', Reach (GroupLocks.next hundreds) (· = GroupLocks.initial teamBase) locksInGroup s ∧
      101 ∈ s.locks.guard 0 ∧ 201 ∈ s.locks.guard 0 ∧ running (s.locks.pc 0) = true ∧
      103 ∈ s.locks.guard 1 ∧ running (s.locks.pc 1) = true ∧ Exclusive s ∧
      GroupLocks.next hundreds s (2, .group true) = some s' ∧
      (s.shared.base 104).groupLockID = 0 ∧ (s'.shared.base 104).groupLockID = 9 ∧
      ∀ g, g ≠ 2 → 104 ∉ s.locks.guard g := by
  obtain ⟨s, hreach, ⟨hmem, hmem', hrun, hother, hrun'⟩, hold, hchange⟩ : ∃ s, Reach
      (GroupLocks.next hundreds) (· = GroupLocks.initial teamBase) locksInGroup s ∧ (101 ∈
      s.locks.guard 0 ∧ 201 ∈ s.locks.guard 0 ∧ running (s.locks.pc 0) = true ∧ 103 ∈ s.locks.guard
      1 ∧ running (s.locks.pc 1) = true) ∧ (s.shared.base 104).groupLockID = 0 ∧ (GroupLocks.next
      hundreds s (2, .group true)).any fun s' => (s'.shared.base 104).groupLockID = 9 :=
    exists_of_run rfl locksTest
      (teamDispatch ++ castTo 201 ++ broadcastTo 103 ++ joinUpToSwap ⟨104, 9, .join⟩)
      (fun _ _ _ => locksInGroup_of_test) (by decide +kernel)
  obtain ⟨s', hnext, hnew⟩ := any_eq_true _ _ |>.mp hchange
  have hnew : (s'.shared.base 104).groupLockID = 9 := of_decide_eq_true hnew
  obtain ⟨hexclusive, hchanged⟩ := group_exclusion hundreds teamBase
  refine ⟨s, s', hreach, hmem, hmem', hrun, hother, hrun', hexclusive s hreach, hnext, hold, hnew,
    ?_⟩
  exact hchanged s hreach.any _ s' hnext 104 (by rw [hold, hnew]; decide)

theorem broadcast_ignores_group :
    ∃ s, Reach (GroupLocks.next hundreds) (· = GroupLocks.initial teamBase) anyStep s ∧
      running (s.locks.pc 0) = true ∧ running (s.locks.pc 1) = true ∧
      101 ∈ s.locks.guard 0 ∧ 201 ∈ s.locks.guard 1 ∧
      (s.shared.base 101).groupLockID = 7 ∧ (s.shared.base 201).groupLockID = 7 ∧
      ¬ Exclusive s := by
  refine exists_reach_imp (P := fun s => running (s.locks.pc 0) = true ∧ running (s.locks.pc 1) =
    true ∧ 101 ∈ s.locks.guard 0 ∧ 201 ∈ s.locks.guard 1 ∧ (s.shared.base 101).groupLockID = 7 ∧
    (s.shared.base 201).groupLockID = 7)
    (exists_of_anyRun rfl
      (teamDispatch ++ broadcastTo 201) (by decide +kernel)) ?_
  rintro s hreach ⟨hrun, hrun', hmem, hmem', hgroup, hgroup'⟩
  refine ⟨hrun, hrun', hmem, hmem', hgroup, hgroup', fun hexclusive => ?_⟩
  have heq := hexclusive 0 1 101 201 hrun hrun' hmem hmem' (hgroup.trans hgroup'.symm)
    (by rw [hgroup]; decide)
  cases heq

end CubeCore.GroupExclusion
