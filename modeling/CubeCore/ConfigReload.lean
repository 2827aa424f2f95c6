import CubeCore.TransitionSystem
import Mathlib.Data.List.TakeWhile

namespace CubeCore.ConfigReload

open TransitionSystem

/-- A snapshot; `object` is its identity. -/
structure Snapshot where
  object : Nat
  version : Nat
  deriving DecidableEq

/-- What a listener answers in a call. -/
structure Listener where
  name : String
  validateReload : Option String
  beforeApplyReload : Option String
  afterApplyReload : Option String

/-- `runtimeConfig` is `none` before it is first set, and can then be a nil snapshot. -/
structure Config where
  current : Option Snapshot
  previous : Option Snapshot
  version : Nat
  defaultStore : Option Nat
  runtimeConfig : Option (Option Snapshot)

/-- `prepared` are the listeners whose `BeforeApplyReload` returned nil. -/
structure Outcome where
  config : Config
  result : Except String Snapshot
  prepared : List Listener
  rolledBack : List Listener

variable (stage : String) (hook : Listener → Option String) (listeners : List Listener)

/-- A round of listener calls: the listeners that returned nil and the error that ended it. -/
def runReload : List Listener → List Listener × Option String
  | [] => ([], none)
  | l :: listeners =>
    match hook l with
    | some err => ([], some s!"configdata: reload {stage} {l.name}: {err}")
    | none => (runReload listeners).map (l :: ·) id

def runReloadValidate := runReload "validate" (·.validateReload)

def runReloadBeforeApply := runReload "before apply" (·.beforeApplyReload)

def runReloadAfterApply := runReload "after apply" (·.afterApplyReload)

variable {stage hook listeners} in
theorem runReload_eq_none_iff :
    (runReload stage hook listeners).2 = none ↔ ∀ l ∈ listeners, hook l = none := by
  induction listeners with
  | nil => simp [runReload]
  | cons l listeners ih =>
    simp only [runReload, List.forall_mem_cons]
    cases hook l <;> simp [ih]

theorem runReload_fst :
    (runReload stage hook listeners).1 = listeners.takeWhile fun l => (hook l).isNone := by
  induction listeners with
  | nil => rfl
  | cons l listeners ih =>
    simp only [runReload, List.takeWhile_cons]
    cases hook l <;> simp [ih]

variable (self : Nat) (c : Config) (object : Nat) (build emit : Option String) (snap : Snapshot)

def refused (err : String) : Outcome := ⟨c, .error err, [], []⟩

/-- What `ReloadWithReason` and `Rollback` do with the new snapshot. -/
def publish : Outcome :=
  match (runReloadValidate listeners).2, runReloadBeforeApply listeners with
  | some err, _ => refused c err
  | none, (prepared, some err) => ⟨c, .error err, prepared, []⟩
  | none, (prepared, none) =>
    let published : Config :=
      { c with current := snap, defaultStore := self, runtimeConfig := some snap }
    match emit <|> (runReloadAfterApply listeners).2 with
    | some err => ⟨{ published with current := c.current, runtimeConfig := some c.current },
        .error err, prepared, listeners.reverse⟩
    | none => ⟨{ published with previous := c.current <|> c.previous, version := snap.version },
        .ok snap, prepared, []⟩

def reloadWithReason : Outcome :=
  match build with
  | some err => refused c err
  | none => publish listeners self c emit ⟨object, c.version + 1⟩

def dryRun : Outcome :=
  match build <|> (runReloadValidate listeners).2 with
  | some err => refused c err
  | none => ⟨c, .ok ⟨object, c.version + 1⟩, [], []⟩

def rollback : Outcome :=
  match c.previous with
  | none => refused c "configdata: previous snapshot not found"
  | some prev => publish listeners self c emit prev

/-- A call that fails leaves the configuration as it was and rolls back whom it has prepared. -/
def Outcome.AllOrNothing (o : Outcome) : Prop :=
  ∀ err, o.result = .error err → o.config = c ∧ o.rolledBack = o.prepared.reverse

/-- If all validate, no `BeforeApplyReload` fails after another has returned nil, and nothing fails
after publication unless the store is the default store and its snapshot the runtime
configuration. -/
def Recovers : Prop :=
  (∀ l ∈ listeners, l.validateReload = none) →
    if ∀ l ∈ listeners, l.beforeApplyReload = none then
      emit ≠ none ∨ (∃ l ∈ listeners, l.afterApplyReload ≠ none) →
        c.defaultStore = some self ∧ c.runtimeConfig = some c.current
    else ∃ l ∈ listeners.head?, l.beforeApplyReload ≠ none

variable {self c listeners emit}

theorem allOrNothing_publish_iff :
    (publish listeners self c emit snap).AllOrNothing c ↔ Recovers listeners self c emit := by
  by_cases hv : ∀ l ∈ listeners, l.validateReload = none
  case neg =>
    obtain ⟨err, herr⟩ : ∃ err, (runReloadValidate listeners).2 = some err :=
      Option.ne_none_iff_exists'.mp (mt runReload_eq_none_iff.mp hv)
    rw [publish, herr]
    exact iff_of_true (fun _ _ => ⟨rfl, rfl⟩) fun h => absurd h hv
  have hvalidate : (runReloadValidate listeners).2 = none := runReload_eq_none_iff.mpr hv
  have hprepared : (runReloadBeforeApply listeners).1 = _ := runReload_fst _ _ listeners
  by_cases hb : ∀ l ∈ listeners, l.beforeApplyReload = none
  · have hbefore : runReloadBeforeApply listeners = (listeners, none) := by
      refine Prod.ext (hprepared.trans ?_) (runReload_eq_none_iff.mpr hb)
      exact List.takeWhile_eq_self_iff.mpr (by simpa using hb)
    have hafter : (emit <|> (runReloadAfterApply listeners).2) = none ↔
        emit = none ∧ ∀ l ∈ listeners, l.afterApplyReload = none := by
      cases emit <;> simp [runReloadAfterApply, runReload_eq_none_iff]
    rw [Recovers, forall_prop_of_true hv, if_pos hb, publish, hvalidate, hbefore]
    dsimp only
    cases herr : emit <|> (runReloadAfterApply listeners).2 with
    | none =>
      obtain ⟨hemit, hlast⟩ := hafter.mp herr
      simpa [Outcome.AllOrNothing, hemit] using fun l hl hfails => absurd (hlast l hl) hfails
    | some err =>
      have hfails : emit ≠ none ∨ ∃ l ∈ listeners, l.afterApplyReload ≠ none := by
        by_contra hnone
        rw [hafter.mpr (by simpa using hnone)] at herr
        cases herr
      obtain ⟨current, previous, version, defaultStore, runtimeConfig⟩ := c
      simp [Outcome.AllOrNothing, hfails, eq_comm]
  · obtain ⟨err, herr⟩ : ∃ err, (runReloadBeforeApply listeners).2 = some err :=
      Option.ne_none_iff_exists'.mp (mt runReload_eq_none_iff.mp hb)
    rw [Recovers, forall_prop_of_true hv, if_neg hb, publish, hvalidate,
      ← Prod.eta (runReloadBeforeApply listeners), herr, hprepared]
    cases listeners with
    | nil => simp at hb
    | cons l listeners => cases hl : l.beforeApplyReload <;> simp [Outcome.AllOrNothing, hl]

/-- A failed call changes nothing and rolls back whom it has prepared, in reverse order, exactly
under this condition. -/
theorem reload_all_or_nothing_iff :
    ((reloadWithReason listeners self c object build emit).AllOrNothing c ↔
      (build = none → Recovers listeners self c emit)) ∧
    ((rollback listeners self c emit).AllOrNothing c ↔
      (c.previous ≠ none → Recovers listeners self c emit)) := by
  have hrefused (err : String) : (refused c err).AllOrNothing c := fun _ _ => ⟨rfl, rfl⟩
  constructor
  · cases build with
    | some err => simp [reloadWithReason, hrefused]
    | none => simp [reloadWithReason, allOrNothing_publish_iff]
  · cases hprevious : c.previous with
    | none => simp [rollback, hprevious, hrefused]
    | some prev => simp [rollback, hprevious, allOrNothing_publish_iff]

def loaded : Config := ⟨some ⟨0, 1⟩, none, 1, some 0, some (some ⟨0, 1⟩)⟩

theorem reload_all_or_nothing_after_apply :
    let o := reloadWithReason [⟨"a", none, none, none⟩, ⟨"b", none, none, some "full"⟩] 0 loaded 1
      none none
    o.AllOrNothing loaded ∧ o.rolledBack.map Listener.name = ["b", "a"] :=
  ⟨(reload_all_or_nothing_iff 1 none).1.mpr fun _ _ => by simp [loaded], rfl⟩

/-- The second listener refuses, and the first, which is prepared, is not told. -/
theorem prepared_not_rolled_back : ¬ (reloadWithReason
    [⟨"a", none, none, none⟩, ⟨"b", none, some "busy", none⟩] 0 loaded 1 none none).AllOrNothing
    loaded :=
  fun h => nomatch (h _ rfl).2

inductive Call
  | reload (build : Option String) (listeners : List Listener) (emit : Option String)
  | dryRun (build : Option String) (listeners : List Listener)
  | rollback (listeners : List Listener) (emit : Option String)

/-- `published` are the snapshots that calls have published with success. -/
structure History where
  config : Config
  built : Nat
  published : List Snapshot

def History.finish (h : History) (o : Outcome) : History where
  config := o.config
  built := h.built + 1
  published := match o.result with
    | .error _ => h.published
    | .ok snap => snap :: h.published

variable (self) in
def next (h : History) : Call → Option History
  | .reload build listeners emit =>
    some (h.finish (reloadWithReason listeners self h.config h.built build emit))
  | .dryRun build listeners =>
    some { h with config := (dryRun listeners h.config h.built build).config, built := h.built + 1 }
  | .rollback listeners emit => some (h.finish (rollback listeners self h.config emit))

def History.known (h : History) : List Snapshot :=
  h.config.current.toList ++ h.config.previous.toList ++ h.published

def Distinct (h : History) : Prop :=
  ∀ p ∈ h.known, ∀ q ∈ h.known, p.version = q.version → p = q

/-- No snapshot has a version above that of the store when it is reloaded. -/
def forward (h : History) : Call → Prop
  | .reload .. => ∀ p ∈ h.known, p.version ≤ h.config.version
  | _ => True

variable {h h' : History} {p : Snapshot}

theorem mem_known_publish
    (hp : p ∈ (h.finish (publish listeners self h.config emit snap)).known) :
    p = snap ∨ p ∈ h.known := by
  unfold publish at hp
  split at hp
  · exact .inr hp
  · exact .inr hp
  · dsimp only at hp
    split at hp
    · exact .inr hp
    · simp only [History.known, History.finish, List.mem_append, List.mem_cons] at hp ⊢
      cases hc : h.config.current <;> simp_all <;> grind

theorem distinct_next {call : Call} (hdistinct : Distinct h) (hforward : forward h call)
    (hnext : next self h call = some h') : Distinct h' := by
  cases call with
  | reload build listeners emit =>
    cases hnext
    cases build with
    | some => exact hdistinct
    | none =>
      intro p hp q hq
      have hp := mem_known_publish _ hp
      have hq := mem_known_publish _ hq
      grind [forward, Distinct]
  | dryRun =>
    cases hnext
    simp only [dryRun]
    split <;> exact hdistinct
  | rollback listeners emit =>
    cases hnext
    cases hprevious : h.config.previous with
    | none =>
      simp only [rollback, hprevious]
      exact hdistinct
    | some prev =>
      have hprev : prev ∈ h.known := by simp [History.known, hprevious]
      intro p hp q hq
      simp only [rollback, hprevious] at hp hq
      have hp := mem_known_publish _ hp
      have hq := mem_known_publish _ hq
      grind [Distinct]

/-- If no reload goes below a known version, a version belongs to one snapshot. -/
theorem version_identifies_snapshot (hreach : Reach (next self) Distinct forward h)
    {p q : Snapshot} (hp : p ∈ h.published) (hq : q ∈ h.published) (heq : p.version = q.version) :
    p = q := by
  have hdistinct : Distinct h := hreach.invariant (fun _ h => h) fun _ _ _ => distinct_next
  exact hdistinct p (by simp [History.known, hp]) q (by simp [History.known, hq]) heq

theorem distinct_loaded : Distinct ⟨loaded, 1, []⟩ := by simp [Distinct, History.known, loaded]

theorem version_identifies_snapshot_rollbacks : ∃ h, Reach (next 0) Distinct forward h ∧
    h.published = [⟨4, 3⟩, ⟨1, 2⟩, ⟨0, 1⟩, ⟨1, 2⟩] ∧
    ∀ p ∈ h.published, ∀ q ∈ h.published, p.version = q.version → p = q := by
  refine exists_reach_imp (exists_of_run distinct_loaded (fun h call => match call with
    | .reload .. => h.known.all (·.version ≤ h.config.version)
    | _ => true) [.reload none [] none, .rollback [] none, .rollback [] none, .reload none [] none]
    (fun h call _ => ?_) (by decide))
    fun h hreach hh => ⟨hh, fun _ hp _ hq => version_identifies_snapshot hreach hp hq⟩
  cases call <;> simp [forward]

/-- A reload after a rollback takes the version of the snapshot that was left. -/
theorem version_used_again : ∃ h, Reach (next 0) Distinct anyStep h ∧
    ∃ p ∈ h.published, ∃ q ∈ h.published, p.object ≠ q.object ∧ p.version = q.version :=
  exists_of_anyRun distinct_loaded [.reload none [] none, .rollback [] none, .reload none [] none]
    (by decide)

end CubeCore.ConfigReload
