import CubeCore.SnapshotIntegrity

namespace CubeCore.MinimumVersion

open AtomicLocal Interleaving RemoteSnapshot SnapshotCacheRuns SnapshotIntegrity TransitionSystem
open RemoteSnapshotEnvelope
open Option

/-- The loader answers with a snapshot of the key it was asked for. -/
def LoaderFor (key : RemoteSnapshotKey) (loader : Option Reply) : Prop :=
  ∀ loaded, loader = some (.ok (some loaded)) → loaded.key = key

/-- The cache has a live entry whose version is too old, and for which a loaded snapshot that is new
enough is stale by its epochs. -/
structure Shadows (env : Env) (store : LocalStore) (minVersion : Nat)
    (loaded : RemoteSnapshotEnvelope) (clock : Clock) (now : Int)
    (e : Entry RemoteSnapshotEnvelope) : Prop where
  enough : minVersion ≤ loaded.stateVersion
  accepts : Accepts store loaded.key (sealed env loaded)
  entry : lookup store loaded.key = some e
  survives : ¬ (expiredAt e clock.read ∧ expiredAt e clock.expire)
  live : ¬ expiredAt e now
  stale : stale e.value (sealed env loaded) = true
  old : e.value.stateVersion < minVersion

def Hidden (env : Env) (store : LocalStore) (minVersion : Nat) (loader : Option Reply)
    (clock : Clock) (now : Int) : Prop :=
  ∃ loaded e, loader = some (.ok (some loaded)) ∧
    Shadows env store minVersion loaded clock now e

section Calls

variable {env : Env} {c c' : RemoteSnapshotCache} {ranging : Range} {clock : Clock}
  {loaded : RemoteSnapshotEnvelope} {e : Entry RemoteSnapshotEnvelope}

theorem keyOfValue_of_valid (hconfigured : Configured env c.store)
    (hvalid : valid env loaded = none) :
    c.store.cfg.validKey loaded.key = true ∧ c.store.cfg.keyOfValue loaded = .ok loaded.key := by
  have hkey : env.validKey loaded.key = true := by
    unfold valid at hvalid
    split_ifs at hvalid with hfields
    simp only [not_or, Bool.not_eq_false] at hfields
    exact hfields.1
  have hvalidKey : c.store.cfg.validKey loaded.key = true := by
    simp only [StoreConfig.validKey, hconfigured.validateKey]
    exact hkey
  refine ⟨hvalidKey, ?_⟩
  simp only [StoreConfig.keyOfValue, hconfigured.keyOf]
  rw [if_pos hvalidKey]

variable {key : RemoteSnapshotKey}

theorem valid_of_accepts (hconfigured : Configured env c.store)
    (haccepts : Accepts c.store key loaded) : valid env loaded = none := by
  have hvalid := haccepts.valid
  rwa [hconfigured.validateValue] at hvalid

variable {now : Int}

theorem layeredSet_of_valid (hconfigured : Configured env c.store)
    (hvalid : valid env loaded = none) :
    layeredSet ranging c loaded now = setLocal ranging c loaded now := by
  unfold layeredSet
  rw [hconfigured.validateValue, (keyOfValue_of_valid hconfigured hvalid).2]
  simp only [bind_some, hvalid]

theorem layeredSet_ok (hconfigured : Configured env c.store)
    (h : layeredSet ranging c loaded now = (none, c'))
    (hlookup : lookup c'.store loaded.key = some e) :
    Accepts c.store loaded.key loaded ∧
      (e.value = loaded ∨ lookup c.store loaded.key = some e ∧ stale e.value loaded = true) := by
  have hvalid : valid env loaded = none := by
    unfold layeredSet at h
    rw [hconfigured.validateValue] at h
    cases hvalid : valid env loaded with
    | none => rfl
    | some => simp [hvalid] at h
  rw [layeredSet_of_valid hconfigured hvalid] at h
  unfold setLocal at h
  rcases hset : setWithTTL ranging c.store loaded c.ttl now with ⟨err, store'⟩
  rw [hset] at h
  cases h
  obtain ⟨haccepts, ⟨⟨old, hold, hstale⟩, rfl⟩ | ⟨expiresAt, rfl⟩⟩ :=
    setWithTTL_eq_ok (keyOfValue_of_valid hconfigured hvalid).2 hset
  · obtain rfl := some.inj (hold.symm.trans hlookup)
    simp only [StoreConfig.isStale, hconfigured.stale] at hstale
    exact ⟨haccepts, .inr ⟨hold, hstale⟩⟩
  · rcases lookup_store ranging hlookup with ⟨hne, -⟩ | ⟨-, hvalue, -⟩
    · exact absurd rfl hne
    · exact ⟨haccepts, .inl hvalue⟩

/-- The cache after `Publish` has read the entry of its key. -/
def afterRead (c : RemoteSnapshotCache) (key : RemoteSnapshotKey) (clock : Clock) :
    RemoteSnapshotCache :=
  (readLocal c key clock.read clock.expire).2

theorem configured_afterRead (hconfigured : Configured env c.store) :
    Configured env (afterRead c key clock).store := by
  have hcfg : (afterRead c key clock).store.cfg = c.store.cfg := (get_frame ..).1
  obtain ⟨hkeyOf, hstale, hkey, hvalue⟩ := hconfigured
  exact ⟨hcfg ▸ hkeyOf, hcfg ▸ hstale, hcfg ▸ hkey, hcfg ▸ hvalue⟩

theorem publish_eq : publish env ranging c loaded clock =
    match publishDecision (readLocal c loaded.key clock.read clock.expire).1
        (sealed env loaded) with
    | some result => (result, afterRead c loaded.key clock)
    | none =>
      (((layeredSet ranging (afterRead c loaded.key clock) (sealed env loaded) clock.set).1.map
          .cache),
        (layeredSet ranging (afterRead c loaded.key clock) (sealed env loaded) clock.set).2) :=
  rfl

variable {current : Option RemoteSnapshotEnvelope}

theorem version_of_repeated (h : publishDecision current loaded = some none) :
    ∃ value, current = some value ∧ value.stateVersion = loaded.stateVersion := by
  unfold publishDecision at h
  split at h
  · cases h
  rename_i value
  split at h
  · rename_i hsame
    exact ⟨value, rfl, hsame.2.2⟩
  · cases h

theorem decision_of_stale (h : ∀ value, current = some value → stale value loaded = true) :
    publishDecision current loaded = none := by
  unfold publishDecision
  split
  · rfl
  rename_i value
  have hstale := h value rfl
  rw [if_neg]
  rintro ⟨hmarker, hroute, hversion⟩
  simp [stale, hmarker, hroute, hversion] at hstale

theorem publish_ok (hconfigured : Configured env c.store)
    (h : publish env ranging c loaded clock = (none, c'))
    (hlookup : lookup c'.store loaded.key = some e) :
    e.value.stateVersion = loaded.stateVersion ∨
      Accepts c.store loaded.key (sealed env loaded) ∧ lookup c.store loaded.key = some e ∧
        ¬ (expiredAt e clock.read ∧ expiredAt e clock.expire) ∧
        stale e.value (sealed env loaded) = true := by
  rw [publish_eq] at h
  split at h
  · rename_i result hdecision
    obtain ⟨rfl, rfl⟩ := Prod.mk.inj h
    obtain ⟨value, hvalue, hversion⟩ := version_of_repeated hdecision
    obtain ⟨hkey, old, hold, -, rfl⟩ := get_eq_some.mp hvalue
    have hentry := ((lookup_get_self hkey).mp hlookup).1
    obtain rfl := some.inj (hold.symm.trans hentry)
    exact .inl hversion
  obtain ⟨herr, rfl⟩ := Prod.mk.inj h
  have hset : layeredSet ranging (afterRead c loaded.key clock) (sealed env loaded) clock.set =
      (none, (layeredSet ranging (afterRead c loaded.key clock) (sealed env loaded)
        clock.set).2) :=
    Prod.ext (map_eq_none_iff.mp herr) rfl
  obtain ⟨haccepts, hvalue | ⟨hentry, hstale⟩⟩ :=
    layeredSet_ok (configured_afterRead hconfigured) hset hlookup
  · exact .inl (by rw [hvalue]; rfl)
  have haccepts' : Accepts c.store loaded.key (sealed env loaded) := accepts_get.mp haccepts
  have hkey := (keyOfValue_of_valid hconfigured (valid_of_accepts hconfigured haccepts')).1
  obtain ⟨hold, hsurvives⟩ := (lookup_get_self hkey).mp hentry
  exact .inr ⟨haccepts', hold, hsurvives, hstale⟩

theorem publish_of_stale (ranging : Range) (hconfigured : Configured env c.store)
    (haccepts : Accepts c.store loaded.key (sealed env loaded))
    (hlookup : lookup c.store loaded.key = some e)
    (hsurvives : ¬ (expiredAt e clock.read ∧ expiredAt e clock.expire))
    (hstale : stale e.value (sealed env loaded) = true) :
    publish env ranging c loaded clock = (none, afterRead c loaded.key clock) ∧
      lookup (afterRead c loaded.key clock).store loaded.key = some e := by
  have hvalid := valid_of_accepts hconfigured haccepts
  have hkey : c.store.cfg.validKey loaded.key = true := (keyOfValue_of_valid hconfigured hvalid).1
  have hentry : lookup (afterRead c loaded.key clock).store loaded.key = some e :=
    (lookup_get_self hkey).mpr ⟨hlookup, hsurvives⟩
  refine ⟨?_, hentry⟩
  have hdecision : publishDecision (readLocal c loaded.key clock.read clock.expire).1
      (sealed env loaded) = none := by
    apply decision_of_stale
    intro value hvalue
    obtain ⟨-, old, hold, -, rfl⟩ := get_eq_some.mp hvalue
    obtain rfl := some.inj (hlookup.symm.trans hold)
    exact hstale
  have hset : layeredSet ranging (afterRead c loaded.key clock) (sealed env loaded) clock.set =
      (none, afterRead c loaded.key clock) := by
    rw [layeredSet_of_valid (configured_afterRead hconfigured) hvalid]
    have haccepts' : Accepts (afterRead c loaded.key clock).store loaded.key (sealed env loaded) :=
      accepts_get.mpr haccepts
    unfold setLocal
    rw [setWithTTL_of_stale haccepts' hentry]
    simp only [StoreConfig.isStale, (configured_afterRead hconfigured).stale]
    exact hstale
  rw [publish_eq, hdecision]
  simp only [hset, map_none]

variable {minVersion : Nat} {loader : Option Reply} {snapshot : RemoteSnapshotEnvelope} {now' : Int}

theorem getSnapshot_minVersion (hconsistency : consistency ≠ .cached)
    (h : (getSnapshot ranging c key consistency minVersion remote loader clock).1 =
      .ok (some snapshot)) :
    minVersion ≤ snapshot.stateVersion := by
  unfold getSnapshot at h
  split at h
  · split_ifs at h with hversion
    cases h
    exact hversion.resolve_left hconsistency
  · rename_i hfound
    exact (hfound snapshot _ (Prod.ext h rfl)).elim

theorem loadAuthoritative_found :
    (loadAuthoritative env ranging c key minVersion loader clock now now').1 = .ok (some snapshot) ↔
      ∃ loaded c', loader = some (.ok (some loaded)) ∧ minVersion ≤ loaded.stateVersion ∧
        publish env ranging c loaded clock = (none, c') ∧
        (get c'.store key now now').1 = some snapshot := by
  constructor
  · intro h
    unfold loadAuthoritative at h
    split at h
    · cases h
    · cases h
    · cases h
    rename_i loaded
    split at h
    · cases h
    rename_i hversion
    split at h
    · cases h
    rename_i c' hpublish
    exact ⟨loaded, c', rfl, Nat.le_of_not_lt hversion, hpublish, Except.ok.inj h⟩
  · rintro ⟨loaded, c', rfl, hversion, hpublish, hget⟩
    unfold loadAuthoritative
    dsimp only
    rw [if_neg (Nat.not_lt.mpr hversion), hpublish]
    exact congrArg Except.ok hget

theorem loadAuthoritative_minVersion (hconfigured : Configured env c.store)
    (hloader : LoaderFor key loader) :
    (∀ snapshot, (loadAuthoritative env ranging c key minVersion loader clock now now').1 =
        .ok (some snapshot) → minVersion ≤ snapshot.stateVersion) ↔
      ¬ Hidden env c.store minVersion loader clock now := by
  constructor
  · rintro hfound ⟨loaded, e, rfl, hshadows⟩
    obtain rfl := hloader loaded rfl
    obtain ⟨hpublish, hentry⟩ := publish_of_stale ranging hconfigured
      hshadows.accepts hshadows.entry hshadows.survives hshadows.stale
    have hvalid := valid_of_accepts hconfigured hshadows.accepts
    have hkey : (afterRead c loaded.key clock).store.cfg.validKey loaded.key = true :=
      (keyOfValue_of_valid (configured_afterRead hconfigured) hvalid).1
    have hget : (get (afterRead c loaded.key clock).store loaded.key now now').1 = some e.value :=
      get_eq_some.mpr ⟨hkey, e, hentry, hshadows.live, rfl⟩
    have hversion : minVersion ≤ e.value.stateVersion :=
      hfound e.value (loadAuthoritative_found.mpr ⟨loaded, _, rfl, hshadows.enough, hpublish, hget⟩)
    have hold := hshadows.old
    omega
  · intro hhidden snapshot hresult
    obtain ⟨loaded, c', rfl, henough, hpublish, hget⟩ := loadAuthoritative_found.mp hresult
    obtain rfl := hloader loaded rfl
    obtain ⟨-, e, hentry, hlive, rfl⟩ := get_eq_some.mp hget
    rcases publish_ok hconfigured hpublish hentry with hsame | ⟨haccepts, hold, hsurvives, hstale⟩
    · rwa [hsame]
    · by_contra hversion
      exact hhidden ⟨loaded, e, rfl, henough, haccepts, hold, hsurvives, hlive, hstale,
        Nat.lt_of_not_le hversion⟩

end Calls

theorem configured_of_reach {env : Env} {cfg hash s}
    (h : Reach (next env) (Initial env cfg hash) anyStep s) :
    Configured env s.shared.cache.store := by
  induction h with
  | start hinit =>
    obtain rfl := hinit
    exact ⟨rfl, rfl, rfl, rfl⟩
  | @step s s' l _ _ hnext ih =>
    obtain ⟨w, pc, hstep, rfl⟩ := next_eq_some hnext
    exact configured_change ih (effect_step hstep).1

/-- A snapshot is as new as was asked for, unless cached ones will do or the loaded one is
hidden. -/
theorem minimum_version (env : Env) (cfg : RemoteSnapshotCacheConfig)
    (hash : RemoteSnapshotKey → Nat) {s : Threads Shared PC}
    (h : Reach (next env) (Initial env cfg hash) anyStep s) (ranging : Range)
    (key : RemoteSnapshotKey) (minVersion : Nat) (clock : Clock) (now now' : Int) :
    (∀ consistency remote loader snapshot, consistency ≠ .cached →
      (getSnapshot ranging s.shared.cache key consistency minVersion remote loader clock).1 =
        .ok (some snapshot) → minVersion ≤ snapshot.stateVersion) ∧
    ∀ loader, LoaderFor key loader →
      ((∀ snapshot,
        (loadAuthoritative env ranging s.shared.cache key minVersion loader clock now now').1 =
          .ok (some snapshot) → minVersion ≤ snapshot.stateVersion) ↔
        ¬ Hidden env s.shared.cache.store minVersion loader clock now) := by
  constructor
  · intro consistency remote loader snapshot hconsistency hfound
    exact getSnapshot_minVersion hconsistency hfound
  · intro loader hloader
    exact loadAuthoritative_minVersion (configured_of_reach h) hloader

section Example

def answer (c : Commit) : Option Reply := some (.ok (some (snapshotOf c)))

theorem loaderFor_answer (c : Commit) : LoaderFor entity (answer c) := by
  rintro _ ⟨⟩
  rfl

/-- What `LoadAuthoritative` gives back for a minimum version of 5. -/
def loadsFive (s : Threads Shared PC) (c : Commit) :
    Except SnapshotError (Option RemoteSnapshotEnvelope) :=
  (loadAuthoritative appending inOrder s.shared.cache entity 5 (answer c) ⟨5, 5, 5⟩ 6 6).1

/-- The trace of a published snapshot of marker epoch 2. -/
def publishes : List (Nat × Act) :=
  [(1, .publish (snapshotOf ⟨2, 1, 1, 1, 1, [9]⟩)), (1, .run 1 inOrder), (1, .run 1 inOrder),
    (1, .run 1 inOrder), (1, .run 1 inOrder)]

theorem minimum_version_seven :
    ∃ s, Reach (next appending) (Initial appending ⟨1, 2, 0, 0⟩ fun _ => 0) anyStep s ∧
      loadsFive s ⟨2, 1, 7, 1, 1, [7]⟩ =
        .ok (some (sealed appending (snapshotOf ⟨2, 1, 7, 1, 1, [7]⟩))) ∧
      ¬ Hidden appending s.shared.cache.store 5 (answer ⟨2, 1, 7, 1, 1, [7]⟩) ⟨5, 5, 5⟩ 6 := by
  refine exists_reach_imp (P := fun s =>
      loadsFive s ⟨2, 1, 7, 1, 1, [7]⟩ =
        .ok (some (sealed appending (snapshotOf ⟨2, 1, 7, 1, 1, [7]⟩))))
    (exists_of_anyRun rfl publishes (by decide +kernel)) ?_
  intro s hreach hs
  have hiff := (minimum_version appending ⟨1, 2, 0, 0⟩ (fun _ => 0) hreach inOrder entity 5
    ⟨5, 5, 5⟩ 6 6).2 (answer ⟨2, 1, 7, 1, 1, [7]⟩) (loaderFor_answer _)
  refine ⟨hs, hiff.mp ?_⟩
  intro snapshot hfound
  have hsame := hs.symm.trans hfound
  cases hsame
  decide

/-- Version 10 is loaded with an older marker epoch, and version 1 is given back. -/
theorem version_below_minimum :
    ∃ s, Reach (next appending) (Initial appending ⟨1, 2, 0, 0⟩ fun _ => 0) anyStep s ∧
      LoaderFor entity (answer ⟨1, 1, 10, 1, 1, [1]⟩) ∧
      ∃ snapshot, loadsFive s ⟨1, 1, 10, 1, 1, [1]⟩ = .ok (some snapshot) ∧
        snapshot.stateVersion < 5 := by
  refine exists_reach_imp (P := fun s =>
      loadsFive s ⟨1, 1, 10, 1, 1, [1]⟩ =
        .ok (some (sealed appending (snapshotOf ⟨2, 1, 1, 1, 1, [9]⟩))))
    (exists_of_anyRun rfl publishes (by decide +kernel)) ?_
  intro s hreach hs
  exact ⟨loaderFor_answer _, _, hs, by decide⟩

end Example

end CubeCore.MinimumVersion
