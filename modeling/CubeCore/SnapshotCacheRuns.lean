import CubeCore.Interleaving
import CubeCore.RemoteSnapshot

namespace CubeCore.SnapshotCacheRuns

open AtomicLocal Interleaving RemoteSnapshot TransitionSystem

structure Shared where
  cache : RemoteSnapshotCache
  publishMu : Nat → Bool

/-- `remoteSnapshotPublishShard`. -/
def publishShard (key : RemoteSnapshotKey) : Nat :=
  let h := UInt64.ofInt key.entityID ^^^ UInt64.ofNat key.tenant <<< 32 ^^^
    UInt64.ofNat key.kind <<< 48
  let h := h ^^^ (UInt64.ofNat key.scope * 0x9e3779b185ebca87 ^^^
    UInt64.ofNat key.policy * 0xc2b2ae3d27d4eb4f)
  (h &&& 63).toNat

/-- What a goroutine does when its `Publish` has returned. -/
inductive After where
  | done
  | authoritative (key : RemoteSnapshotKey)
deriving DecidableEq

inductive PC where
  | idle
  | lock (snapshot : RemoteSnapshotEnvelope) (after : After)
  | publishRead (snapshot : RemoteSnapshotEnvelope) (after : After)
  | publishExpire (snapshot : RemoteSnapshotEnvelope) (after : After) (generation : Nat)
  | publishSet (snapshot : RemoteSnapshotEnvelope) (after : After)
  | unlock (key : RemoteSnapshotKey) (ok : Bool) (after : After)
  | updateRead (update : RemoteSnapshotRecord)
  | updateExpire (update : RemoteSnapshotRecord) (generation : Nat)
  | getRead (key : RemoteSnapshotKey)
  | getExpire (key : RemoteSnapshotKey) (generation : Nat)
  | load (key : RemoteSnapshotKey)
  | askLoader (key : RemoteSnapshotKey)
  | loadSet (value : RemoteSnapshotEnvelope)
  | authoritative (key : RemoteSnapshotKey) (minVersion : Nat)
  | authRead (key : RemoteSnapshotKey)
  | authExpire (key : RemoteSnapshotKey) (generation : Nat)
  | delete (key : RemoteSnapshotKey)

/-- Calls, steps with the clock and an order of the items, and answers of the L2 store or the
loader. -/
inductive Act where
  | publish (snapshot : RemoteSnapshotEnvelope)
  | applyUpdate (update : RemoteSnapshotRecord) (now : Int)
  | get (key : RemoteSnapshotKey)
  | loadAuthoritative (key : RemoteSnapshotKey) (minVersion : Nat)
  | delete (key : RemoteSnapshotKey)
  | run (now : Int) (ranging : Range)
  | reply (reply : Reply)

inductive Read where
  | miss
  | hit (value : RemoteSnapshotEnvelope)
  | expired (generation : Nat)

/-- The first step of `AtomicLocalStore.Get`. -/
def read (s : Shared) (key : RemoteSnapshotKey) (now : Int) : Read :=
  if s.cache.store.cfg.validKey key = false then .miss
  else
    match lookup s.cache.store key with
    | none => .miss
    | some entry => if expiredAt entry now then .expired entry.generation else .hit entry.value

/-- Its second step, for an entry that has expired. -/
def Shared.expire (s : Shared) (key : RemoteSnapshotKey) (generation : Nat) (now : Int) : Shared :=
  { s with cache.store := AtomicLocal.expire s.cache.store key generation now }

def Shared.setMu (s : Shared) (key : RemoteSnapshotKey) (locked : Bool) : Shared :=
  { s with publishMu := Function.update s.publishMu (publishShard key) locked }

def step (env : Env) (s : Shared) : PC → Act → Option (Shared × PC)
  -- Publish
  | .idle, .publish snapshot => some (s, .lock (sealed env snapshot) .done)
  | .lock snapshot after, .run _ _ =>
    if s.publishMu (publishShard snapshot.key) then none
    else some (s.setMu snapshot.key true, .publishRead snapshot after)
  | .publishRead snapshot after, .run now _ =>
    match read s snapshot.key now with
    | .expired generation => some (s, .publishExpire snapshot after generation)
    | .miss => some (s, .publishSet snapshot after)
    | .hit current =>
      match publishDecision (some current) snapshot with
      | some result => some (s, .unlock snapshot.key result.isNone after)
      | none => some (s, .publishSet snapshot after)
  | .publishExpire snapshot after generation, .run now _ =>
    some (s.expire snapshot.key generation now, .publishSet snapshot after)
  | .publishSet snapshot after, .run now ranging =>
    some ({ s with cache := (layeredSet ranging s.cache snapshot now).2 },
      .unlock snapshot.key (layeredSet ranging s.cache snapshot now).1.isNone after)
  | .unlock key ok after, .run _ _ =>
    some (s.setMu key false,
      match after with
      | .done => .idle
      | .authoritative key => if ok then .authRead key else .idle)
  -- ApplyUpdate
  | .idle, .applyUpdate update now =>
    if checksumOk env update = false then some (s, .idle)
    else if update.full then some (s, .lock (sealed env (fullEnvelope update now)) .done)
    else some (s, .updateRead update)
  | .updateRead update, .run now _ =>
    match read s update.key now with
    | .expired generation => some (s, .updateExpire update generation)
    | .miss => some (s, .idle)
    | .hit current =>
      match deltaEnvelope env (some current) update now with
      | .error _ => some (s, .idle)
      | .ok snapshot => some (s, .lock (sealed env snapshot) .done)
  | .updateExpire update generation, .run now _ =>
    some (s.expire update.key generation now, .idle)
  -- Get
  | .idle, .get key =>
    if s.cache.store.cfg.validKey key = false then some (s, .idle) else some (s, .getRead key)
  | .getRead key, .run now _ =>
    match read s key now with
    | .expired generation => some (s, .getExpire key generation)
    | .miss => some (s, .load key)
    | .hit _ => some (s, .idle)
  | .getExpire key generation, .run now _ => some (s.expire key generation now, .load key)
  | .load key, .reply reply =>
    match reply with
    | .ok (some value) => some (s, .loadSet value)
    | _ => some (s, .askLoader key)
  | .askLoader _, .reply reply =>
    match reply with
    | .ok (some value) => some (s, .loadSet value)
    | _ => some (s, .idle)
  | .loadSet value, .run now ranging =>
    some ({ s with cache := (setLocal ranging s.cache value now).2 }, .idle)
  -- LoadAuthoritative
  | .idle, .loadAuthoritative key minVersion => some (s, .authoritative key minVersion)
  | .authoritative key minVersion, .reply reply =>
    match reply with
    | .ok (some snapshot) =>
      if snapshot.stateVersion < minVersion then some (s, .idle)
      else some (s, .lock (sealed env snapshot) (.authoritative key))
    | _ => some (s, .idle)
  | .authRead key, .run now _ =>
    match read s key now with
    | .expired generation => some (s, .authExpire key generation)
    | _ => some (s, .idle)
  | .authExpire key generation, .run now _ => some (s.expire key generation now, .idle)
  -- Delete
  | .idle, .delete key => some (s, .delete key)
  | .delete key, .run _ _ =>
    some ({ s with cache.store := AtomicLocal.delete s.cache.store key }, .idle)
  | _, _ => none

def next (env : Env) : Threads Shared PC → Nat × Act → Option (Threads Shared PC) :=
  Interleaving.next fun _ => step env

def Initial (env : Env) (cfg : RemoteSnapshotCacheConfig) (hash : RemoteSnapshotKey → Nat)
    (s : Threads Shared PC) : Prop :=
  s = ⟨⟨newRemoteSnapshotCache env cfg hash, fun _ => false⟩, fun _ => .idle⟩

structure Configured (env : Env) (store : LocalStore) : Prop where
  keyOf : store.cfg.keyOf = some RemoteSnapshotEnvelope.key
  stale : store.cfg.stale = some RemoteSnapshot.stale
  validateKey : store.cfg.validateKey = some env.validKey
  validateValue : store.cfg.validateValue = some (RemoteSnapshotEnvelope.valid env)

/-- The snapshot with which a goroutine is on its way to the store. -/
def PC.carries : PC → Option RemoteSnapshotEnvelope
  | .lock snapshot _ | .publishRead snapshot _ | .publishExpire snapshot _ _
  | .publishSet snapshot _ | .loadSet snapshot => some snapshot
  | _ => none

/-- Entries may have gone, or the snapshot the goroutine carries has been set. -/
inductive Change (pc : PC) (store : LocalStore) : LocalStore → Prop
  | fewer : store'.cfg = store.cfg →
      (∀ key e, lookup store' key = some e → lookup store key = some e) →
      Change pc store store'
  | set (ranging : Range) (value : RemoteSnapshotEnvelope) (ttl now : Int) :
      pc.carries = some value → Change pc store (setWithTTL ranging store value ttl now).2

/-- Where a goroutine gets the snapshot it carries from. -/
inductive Origin (env : Env) (s : Shared) : PC → Act → RemoteSnapshotEnvelope → Prop
  | kept : pc.carries = some snapshot → Origin env s pc a snapshot
  | publish (snapshot : RemoteSnapshotEnvelope) :
      Origin env s .idle (.publish snapshot) (sealed env snapshot)
  | full (update : RemoteSnapshotRecord) (now : Int) : update.full = true →
      Origin env s .idle (.applyUpdate update now) (sealed env (fullEnvelope update now))
  | delta : lookup s.cache.store update.key = some entry →
      deltaEnvelope env (some entry.value) update now = .ok snapshot →
      Origin env s (.updateRead update) (.run now ranging) (sealed env snapshot)
  | loaded (value : RemoteSnapshotEnvelope) : Origin env s pc (.reply (.ok (some value))) value
  | authoritative (snapshot : RemoteSnapshotEnvelope) :
      Origin env s pc (.reply (.ok (some snapshot))) (sealed env snapshot)

section Steps

variable {env : Env} {s s' : Shared} {pc pc' : PC} {a : Act}

variable (store : LocalStore) (key : RemoteSnapshotKey)

theorem cfg_expire (generation : Nat) (now : Int) :
    (AtomicLocal.expire store key generation now).cfg = store.cfg := by
  unfold AtomicLocal.expire
  split
  · rfl
  · split <;> rfl

theorem cfg_delete : (AtomicLocal.delete store key).cfg = store.cfg := by
  unfold AtomicLocal.delete
  split <;> rfl

theorem change_refl (pc : PC) (store : LocalStore) : Change pc store store :=
  .fewer rfl fun _ _ => id

theorem change_expire (pc : PC) (s : Shared) (key : RemoteSnapshotKey) (generation : Nat)
    (now : Int) : Change pc s.cache.store (s.expire key generation now).cache.store :=
  .fewer (cfg_expire ..) fun _ _ h => lookup_expire h

variable {value : RemoteSnapshotEnvelope}

theorem change_setLocal (ranging : Range) (now : Int) (hcarries : pc.carries = some value) :
    Change pc c.store (setLocal ranging c value now).2.store :=
  .set ranging value c.ttl now hcarries

theorem change_layeredSet (ranging : Range) (now : Int) (hcarries : pc.carries = some value) :
    Change pc c.store (layeredSet ranging c value now).2.store := by
  unfold layeredSet
  split
  · exact change_refl ..
  · split
    · exact change_refl ..
    · exact change_setLocal ranging now hcarries

theorem lookup_of_hit {key} (h : read s key now = .hit value) :
    ∃ entry, lookup s.cache.store key = some entry ∧ entry.value = value := by
  unfold read at h
  split at h
  · cases h
  split at h
  · cases h
  rename_i entry hlookup
  split_ifs at h
  cases h
  exact ⟨entry, hlookup, rfl⟩

theorem effect_step (hstep : step env s pc a = some (s', pc')) :
    Change pc s.cache.store s'.cache.store ∧
      ∀ snapshot, pc'.carries = some snapshot → Origin env s pc a snapshot := by
  apply of_eq_some (P := fun r => Change pc s.cache.store r.1.cache.store ∧
    ∀ snapshot, r.2.carries = some snapshot → Origin env s pc a snapshot) hstep
  fun_cases step env s pc a with
  | case1 =>
    refine ⟨change_refl .., ?_⟩
    rintro _ ⟨⟩
    exact .publish _
  | case3 | case4 | case5 | case7 =>
    -- the goroutine goes on with its snapshot
    exact ⟨change_refl .., fun _ h => .kept h⟩
  | case8 => exact ⟨change_expire .., fun _ h => .kept h⟩
  | case9 => exact ⟨change_layeredSet _ _ rfl, nofun⟩
  | case10 _ ok after =>
    refine ⟨change_refl .., ?_⟩
    cases after with
    | done => exact nofun
    | authoritative => cases ok <;> exact nofun
  | case12 _ _ _ hfull =>
    refine ⟨change_refl .., ?_⟩
    rintro _ ⟨⟩
    exact .full _ _ hfull
  | case17 _ _ _ _ hread _ hdelta =>
    obtain ⟨entry, hlookup, rfl⟩ := lookup_of_hit hread
    refine ⟨change_refl .., ?_⟩
    rintro _ ⟨⟩
    exact .delta hlookup hdelta
  | case18 | case24 | case36 => exact ⟨change_expire .., nofun⟩
  | case25 | case27 =>
    refine ⟨change_refl .., ?_⟩
    rintro _ ⟨⟩
    exact .loaded _
  | case29 => exact ⟨change_setLocal _ _ rfl, nofun⟩
  | case32 =>
    refine ⟨change_refl .., ?_⟩
    rintro _ ⟨⟩
    exact .authoritative _
  | case38 => exact ⟨.fewer (cfg_delete ..) fun _ _ h => lookup_delete h, nofun⟩
  | case2 | case39 => trivial
  | _ => exact ⟨change_refl .., nofun⟩

theorem delta_step (hstep : step env s pc a = some (s', .updateRead update)) :
    update.full = false ∧ ∃ now, a = .applyUpdate update now := by
  unfold step at hstep
  repeat' split at hstep
  all_goals cases hstep
  rename_i hfull
  exact ⟨Bool.eq_false_iff.mpr hfull, _, rfl⟩

end Steps

end CubeCore.SnapshotCacheRuns
