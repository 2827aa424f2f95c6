import CubeCore.GroupLocks

namespace CubeCore.GroupHandles

open DispatchLocks GroupLockTable GroupLocks List

def held : Phase → List Handle
  | .trying _ held _ | .dispatching held _ | .validating held _ _ | .invalid held _
  | .unlocking held _ | .dropping _ held _ | .joining _ _ held | .locking _ held
  | .updating _ held _ | .retrying _ held | .aborting _ held _ => held
  | _ => []

/-- The entries of the lock table that a goroutine counts in. -/
def refs : Phase → List Handle
  | .trying h held _ | .dropping h held _ => h :: held
  | phase => held phase

/-- The groups that a transition has still to lock. -/
def wanted : Phase → List Int
  | .trying _ _ (.transition _ todo) => todo
  | .joining _ todo _ => todo
  | _ => []

/-- A goroutine never asks twice for the lock of one group. -/
def Distinct (phase : Phase) : Prop := ((refs phase).map Handle.group ++ wanted phase).Nodup

/-- What a step of goroutine `g` does to the lock table. -/
inductive TableStep (g : Nat) (t : Table) (phase : Phase) : Table → Phase → Prop
  | keep : (refs phase').Perm (refs phase) → (held phase').Perm (held phase) →
        (wanted phase').Sublist (wanted phase) → TableStep g t phase t phase'
  | ask : refs phase' = [] → (wanted phase').Nodup → TableStep g t phase t phase'
  | reference {group : Int} {phase' : Phase} :
      refs phase' = (t.reference group g).2 :: refs phase → held phase' = held phase →
        (wanted phase = group :: wanted phase' ∨ refs phase = [] ∧ wanted phase' = []) →
        TableStep g t phase (t.reference group g).1 phase'
  | lock : t.tryLock h g = some t' → h ∈ refs phase → (refs phase').Perm (refs phase) →
        (∀ h' ∈ held phase', h' ∈ held phase ∨ h' = h) → wanted phase' = wanted phase →
        TableStep g t phase t' phase'
  | unlock :
      held phase = h :: held phase' → refs phase' = refs phase → wanted phase' = wanted phase →
        TableStep g t phase (t.unlock h) phase'
  | drop : refs phase = h :: refs phase' → held phase' = held phase → refs phase' = held phase' →
        wanted phase' = wanted phase → TableStep g t phase (t.releaseRef h g) phase'

theorem reference_group (t : Table) (group : Int) (g : Nat) :
    (t.reference group g).2.group = group := by
  simp only [Table.reference]
  split <;> rfl

variable {g : Nat} {t t' : Table} {phase phase' : Phase}

theorem held_sublist_refs (phase : Phase) : (held phase).Sublist (refs phase) := by
  cases phase <;> simp [held, refs]

theorem Distinct.nodup (h : Distinct phase) : (refs phase).Nodup :=
  (List.Nodup.of_append_left h).of_map

theorem Distinct.tableStep (hd : Distinct phase) (hstep : TableStep g t phase t' phase') :
    Distinct phase' := by
  cases hstep with
  | keep hrefs _ hwanted =>
    have hperm : ((refs phase').map Handle.group ++ wanted phase).Perm
        ((refs phase).map Handle.group ++ wanted phase) := (hrefs.map _).append_right _
    exact (hperm.nodup_iff.mpr hd).sublist (List.Sublist.append_left hwanted _)
  | ask hrefs hwanted => simpa [Distinct, hrefs] using hwanted
  | @reference _ _ hrefs _ hwanted =>
    rw [Distinct, hrefs, map_cons, reference_group]
    rcases hwanted with hwanted | ⟨hnone, hwanted⟩
    · rw [Distinct, hwanted] at hd
      exact perm_middle.nodup_iff.mp hd
    · simp [hnone, hwanted]
  | lock _ _ hrefs _ hwanted =>
    have hperm := (hrefs.map Handle.group).append_right (wanted phase)
    rw [Distinct, hwanted]
    exact hperm.nodup_iff.mpr hd
  | unlock _ hrefs hwanted =>
    rwa [Distinct, hrefs, hwanted]
  | drop hrefs _ _ hwanted =>
    rw [Distinct, hrefs, ← hwanted] at hd
    exact hd.of_cons

/-- The lock table agrees with the phases of all goroutines. -/
def TableSound (t : Table) (phase : Nat → Phase) : Prop :=
  Sound t (fun g h => h ∈ refs (phase g)) (fun g h => h ∈ held (phase g))

variable {phases : Nat → Phase}

variable {P : Phase → List Handle} {g' : Nat} {h : Handle}

theorem mem_update (hmem : h ∈ P (Function.update phases g phase' g')) :
    g' = g ∧ h ∈ P phase' ∨ g' ≠ g ∧ h ∈ P (phases g') := by
  rcases eq_or_ne g' g with rfl | hg
  · exact .inl ⟨rfl, by simpa using hmem⟩
  · exact .inr ⟨hg, by simpa [hg] using hmem⟩

theorem mem_of_update (hkept : ∀ h ∈ P phase', h ∈ P (phases g))
    (hmem : h ∈ P (Function.update phases g phase' g')) : h ∈ P (phases g') := by
  rcases mem_update hmem with ⟨rfl, hnew⟩ | ⟨_, hold⟩
  · exact hkept h hnew
  · exact hold

theorem mem_of_update_erase (hlist : P (phases g) = h :: P phase') (hnodup : (P (phases g)).Nodup)
    (hmem : h' ∈ P (Function.update phases g phase' g')) :
    h' ∈ P (phases g') ∧ ¬ (g' = g ∧ h' = h) := by
  rcases mem_update hmem with ⟨rfl, hnew⟩ | ⟨hg, hold⟩
  · refine ⟨by simp [hlist, hnew], fun heq => ?_⟩
    rw [hlist, nodup_cons] at hnodup
    exact hnodup.1 (heq.2 ▸ hnew)
  · exact ⟨hold, fun heq => hg heq.1⟩

theorem TableSound.step (hs : TableSound t phases) (hd : Distinct (phases g))
    (hstep : TableStep g t (phases g) t' phase') :
    TableSound t' (Function.update phases g phase') := by
  have hsub : ∀ g' h, h ∈ held (Function.update phases g phase' g') →
      h ∈ refs (Function.update phases g phase' g') :=
    fun _ _ hheld => (held_sublist_refs _).subset hheld
  cases hstep with
  | keep hrefs hheld =>
    exact hs.mono (fun _ _ => mem_of_update fun _ hnew => hrefs.subset hnew)
      (fun _ _ => mem_of_update fun _ hnew => hheld.subset hnew) hsub
  | ask hrefs =>
    have hheld : held phase' = [] := sublist_nil.mp (hrefs ▸ held_sublist_refs phase')
    exact hs.mono (fun _ _ => mem_of_update (by simp [hrefs]))
      (fun _ _ => mem_of_update (by simp [hheld])) hsub
  | @reference group _ hrefs hheld =>
    refine hs.reference group ?_ (fun _ _ => mem_of_update (by simp [hheld])) hsub
    intro g' h' hmem
    rcases mem_update hmem with ⟨rfl, hnew⟩ | ⟨_, hold⟩
    · rw [hrefs, mem_cons] at hnew
      rcases hnew with rfl | hold
      · exact .inr ⟨rfl, rfl⟩
      · exact .inl hold
    · exact .inl hold
  | lock hlock hmem hrefs hheld =>
    refine hs.tryLock hlock (fun _ _ => mem_of_update fun _ hnew => hrefs.subset hnew) ?_ hsub
    intro g' h' hmem
    rcases mem_update hmem with ⟨rfl, hnew⟩ | ⟨_, hold⟩
    · rcases hheld h' hnew with hold | rfl
      · exact .inl hold
      · exact .inr ⟨rfl, rfl⟩
    · exact .inl hold
  | @unlock h _ hheld hrefs =>
    have hlocked : h ∈ held (phases g) := by simp [hheld]
    refine hs.unlock hlocked (fun _ _ => mem_of_update (by simp [hrefs])) ?_ hsub
    intro g' h' hmem
    exact mem_of_update_erase hheld (hd.nodup.sublist (held_sublist_refs _)) hmem
  | @drop h _ hrefs hheld =>
    have hcounted : h ∈ refs (phases g) := by simp [hrefs]
    refine hs.releaseRef hcounted ?_ (fun _ _ => mem_of_update (by simp [hheld])) hsub
    intro g' h' hmem
    exact mem_of_update_erase hrefs hd.nodup hmem

theorem TableStep.same (hrefs : refs phase' = refs phase) (hheld : held phase' = held phase)
    (hwanted : wanted phase' = wanted phase) : TableStep g t phase t phase' :=
  .keep (.of_eq hrefs) (.of_eq hheld) (hwanted ▸ List.Sublist.refl _)

theorem TableStep.reversed (hrefs : refs phase' = (refs phase).reverse)
    (hheld : held phase' = (held phase).reverse) (hwanted : wanted phase' = []) :
    TableStep g t phase t phase' := by
  refine .keep ?_ ?_ ?_
  · exact hrefs ▸ reverse_perm _
  · exact hheld ▸ reverse_perm _
  · exact hwanted ▸ nil_sublist _

theorem refs_released (pc : PC) (after : Then) :
    refs (released pc after) = [] ∧ held (released pc after) = [] ∧
      wanted (released pc after) = [] := by
  cases after with
  | done =>
    simp only [released]
    split <;> exact ⟨rfl, rfl, rfl⟩
  | refuse | retry => exact ⟨rfl, rfl, rfl⟩

theorem tableStep_released {after : Then} (hrefs : refs phase = []) (hwanted : wanted phase = []) :
    TableStep g t phase t (released pc after) := by
  obtain ⟨hrefs', hheld', hwanted'⟩ := refs_released pc after
  have hheld : held phase = [] := sublist_nil.mp (hrefs ▸ held_sublist_refs phase)
  exact .same (by rw [hrefs, hrefs']) (by rw [hheld, hheld']) (by rw [hwanted, hwanted'])

variable {pc : PC} {sh sh' : Shared} {ok : Bool}

theorem tableStep_resolve (g : Nat) (sh : Shared) (snaps : List DispatchGroupSnapshot)
    (loading : Loading) (todo : List Int) :
    TableStep g sh.groupLocks (.capturing snaps loading todo) (resolve g sh snaps).2.groupLocks
      (resolve g sh snaps).1 ∧ (resolve g sh snaps).2.base = sh.base := by
  unfold resolve
  split
  · exact ⟨.same rfl rfl rfl, rfl⟩
  · split
    · exact ⟨.same rfl rfl rfl, rfl⟩
    · exact ⟨.reference rfl rfl (.inr ⟨rfl, rfl⟩), rfl⟩

theorem update_frame (h : update req ok sh stage = some (stage', sh')) :
    sh'.groupLocks = sh.groupLocks ∧ ∀ id, id ≠ req.entityID → sh'.base id = sh.base id := by
  cases stage with
  | swap =>
    simp only [update] at h
    split at h
    all_goals
      cases h
      exact ⟨rfl, fun id hid => by simp [Shared.modify, hid]⟩
  | done => cases h
  | _ =>
    cases h
    exact ⟨rfl, fun id hid => by simp [Shared.modify, hid]⟩

theorem modify_groupLockID (sh : Shared) (id : Int) (hf : ∀ b, (f b).groupLockID = b.groupLockID)
    (id' : Int) :
    ((sh.modify id f).base id').groupLockID = (sh.base id').groupLockID := by
  rcases eq_or_ne id' id with rfl | hid
  · simp [Shared.modify, hf]
  · simp [Shared.modify, hid]

theorem abort_frame (h : abort req ok sh stage = some (stage', sh')) :
    sh'.groupLocks = sh.groupLocks ∧
      ∀ id, (sh'.base id).groupLockID = (sh.base id).groupLockID := by
  cases stage with
  | clearTarget | clearState =>
    cases h
    exact ⟨rfl, modify_groupLockID sh _ fun _ => rfl⟩
  | compareState | compareTarget =>
    cases h
    exact ⟨rfl, fun _ => rfl⟩
  | _ => cases h

theorem tableStep_groupStep (h : groupStep g pc sh phase ok = some (phase', sh')) :
    TableStep g sh.groupLocks phase sh'.groupLocks phase' ∧
      ∀ id, (sh'.base id).groupLockID = (sh.base id).groupLockID ∨
        ∃ req handles stage, phase = .updating req handles stage ∧ id = req.entityID := by
  revert h
  fun_cases groupStep g pc sh phase ok with
  | case1 =>
    rintro ⟨⟩
    split <;> exact ⟨.same rfl rfl rfl, fun _ => .inl rfl⟩
  | case2 | case12 =>
    rintro ⟨⟩
    exact ⟨tableStep_released rfl rfl, fun _ => .inl rfl⟩
  | case3 | case4 | case5 | case6 | case13 | case14 | case18 =>
    rintro ⟨⟩
    exact ⟨.same rfl rfl rfl, fun _ => .inl rfl⟩
  | case7 snaps loading =>
    intro h
    obtain ⟨hstep, hbase⟩ := tableStep_resolve g sh snaps loading []
    rw [Option.some.inj h] at hstep hbase
    exact ⟨hstep, fun _ => .inl (by rw [hbase])⟩
  | case8 handle handles purpose _ t hlock =>
    rintro ⟨⟩
    have hmem : ∀ h', h' ∈ handles ++ [handle] → h' ∈ handles ∨ h' = handle := by
      simp
    cases purpose with
    | dispatch | transition =>
      exact ⟨.lock hlock mem_cons_self (perm_append_singleton _ _) hmem rfl, fun _ => .inl rfl⟩
  | case9 =>
    rintro ⟨⟩
    refine ⟨.keep ?_ ?_ (nil_sublist _), fun _ => .inl rfl⟩
    · exact (reverse_perm _).cons _
    · exact reverse_perm _
  | case10 =>
    rintro ⟨⟩
    exact ⟨.drop rfl rfl rfl rfl, fun _ => .inl rfl⟩
  | case11 =>
    rintro ⟨⟩
    exact ⟨.unlock rfl rfl rfl, fun _ => .inl rfl⟩
  | case15 =>
    rintro ⟨⟩
    exact ⟨.reference rfl rfl (.inl rfl), fun _ => .inl rfl⟩
  | case16 req handles stage =>
    intro h
    obtain ⟨⟨stage', sh''⟩, hupdate, heq⟩ := Option.map_eq_some_iff.mp h
    cases heq
    obtain ⟨hlocks, hbase⟩ := update_frame hupdate
    refine ⟨hlocks ▸ .same rfl rfl rfl, fun id => ?_⟩
    rcases eq_or_ne id req.entityID with hid | hid
    · exact .inr ⟨req, handles, stage, rfl, hid⟩
    · exact .inl (by rw [hbase id hid])
  | case17 | case20 =>
    rintro ⟨⟩
    exact ⟨.reversed rfl rfl rfl, fun _ => .inl rfl⟩
  | case19 _ _ _ _ _ habort =>
    rintro ⟨⟩
    obtain ⟨hlocks, hbase⟩ := abort_frame habort
    exact ⟨hlocks ▸ .same rfl rfl rfl, fun id => .inl (hbase id)⟩
  | case21 => exact nofun

theorem handles_follow (h : follow base pc a phase = some phase') :
    (refs phase').Perm (refs phase) ∧ (held phase').Perm (held phase) ∧
      (wanted phase').Sublist (wanted phase) := by
  have hreverse : ∀ handles : List Handle, handles.reverse.Perm handles := reverse_perm
  unfold follow at h
  split at h
  all_goals
    first
    | split at h
    | skip
  all_goals
    simp only [Option.some.injEq, reduceCtorEq] at h
  all_goals
    subst h
    first
    | exact ⟨.refl _, .refl _, .refl _⟩
    | exact ⟨hreverse _, hreverse _, .refl _⟩

theorem tableStep_follow (h : follow base pc a phase = some phase') :
    TableStep g t phase t phase' := by
  obtain ⟨hrefs, hheld, hwanted⟩ := handles_follow h
  exact .keep hrefs hheld hwanted

end CubeCore.GroupHandles
