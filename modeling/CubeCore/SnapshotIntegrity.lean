import CubeCore.SnapshotCacheRuns

namespace CubeCore.SnapshotIntegrity

open AtomicLocal Interleaving RemoteSnapshot SnapshotCacheRuns TransitionSystem Option

structure Commit where
  markerEpoch : Nat
  routeEpoch : Nat
  version : Nat
  schema : Nat
  codec : Nat
  payload : List UInt8
deriving DecidableEq

/-- Epochs do not decrease, and versions increase while the epochs stay the same. -/
structure Authority where
  commit : RemoteSnapshotKey → Nat → Option Commit
  grows : ∀ key i j a b, i < j → commit key i = some a → commit key j = some b →
    a.markerEpoch ≤ b.markerEpoch ∧ a.routeEpoch ≤ b.routeEpoch ∧
      (a.markerEpoch = b.markerEpoch → a.routeEpoch = b.routeEpoch → a.version < b.version)

def commitOf (s : RemoteSnapshotEnvelope) : Commit :=
  ⟨s.markerEpoch, s.routeEpoch, s.stateVersion, s.schema, s.codec, s.payload⟩

/-- The snapshot has the content of its key at its epochs and version. -/
def Authentic (A : Authority) (s : RemoteSnapshotEnvelope) : Prop :=
  ∃ i, A.commit s.key i = some (commitOf s)

/-- A full update has the content; a delta turns that at its base version into that at its
version. -/
def AuthenticUpdate (env : Env) (A : Authority) (u : RemoteSnapshotRecord) : Prop :=
  if u.full then Authentic A (fullEnvelope u 0)
  else
    ∃ i base j payload,
      A.commit u.key i = some base ∧ base.markerEpoch = u.markerEpoch ∧
      base.routeEpoch = u.routeEpoch ∧ base.version = u.baseVersion ∧
      A.commit u.key j =
        some ⟨u.markerEpoch, u.routeEpoch, u.stateVersion, u.schema, u.codec, payload⟩ ∧
      env.applyDelta u.schema base.payload u.data = .ok payload

/-- What is offered to the cache comes from the history. -/
def Offered (env : Env) (A : Authority) : Act → Prop
  | .publish snapshot => Authentic A snapshot
  | .applyUpdate update _ => AuthenticUpdate env A update
  | .reply (.ok (some value)) => Authentic A value
  | _ => True

def offered (env : Env) (A : Authority) (_ : Threads Shared PC) (l : Nat × Act) : Prop :=
  Offered env A l.2

/-- Not an earlier state of the history. -/
def NotOlder (old new : RemoteSnapshotEnvelope) : Prop :=
  old.markerEpoch ≤ new.markerEpoch ∧ old.routeEpoch ≤ new.routeEpoch ∧
    (old.markerEpoch = new.markerEpoch → old.routeEpoch = new.routeEpoch →
      old.stateVersion ≤ new.stateVersion)

section History

variable {env : Env} {A : Authority}

theorem Authority.unique (ha : A.commit key i = some a) (hb : A.commit key j = some b)
    (hmarker : a.markerEpoch = b.markerEpoch) (hroute : a.routeEpoch = b.routeEpoch)
    (hversion : a.version = b.version) : a = b := by
  rcases Nat.lt_trichotomy i j with hlt | rfl | hlt
  · have := (A.grows key i j a b hlt ha hb).2.2 hmarker hroute
    omega
  · exact some.inj (ha.symm.trans hb)
  · have := (A.grows key j i b a hlt hb ha).2.2 hmarker.symm hroute.symm
    omega

theorem authentic_sealed (h : Authentic A s) : Authentic A (sealed env s) :=
  h

theorem authentic_delta (hfull : update.full = false) (h : AuthenticUpdate env A update)
    (hkey : current.key = update.key) (hcurrent : Authentic A current)
    (hdelta : deltaEnvelope env (some current) update now = .ok snapshot) :
    Authentic A snapshot := by
  rw [AuthenticUpdate, if_neg (by simp [hfull])] at h
  obtain ⟨i, base, j, payload, hbase, hmarker, hroute, hversion, hcommit, happly⟩ := h
  obtain ⟨k, hk⟩ := hcurrent
  rw [hkey] at hk
  simp only [deltaEnvelope] at hdelta
  split at hdelta
  · cases hdelta
  rename_i hstate
  split at hdelta
  · cases hdelta
  rename_i hepochs
  split at hdelta
  · cases hdelta
  simp only [not_or, not_not] at hstate hepochs
  -- the value that was read is the base of the delta
  have hsame : commitOf current = base :=
    Authority.unique hk hbase (hepochs.1.trans hmarker.symm) (hepochs.2.trans hroute.symm)
      (hstate.trans hversion.symm)
  have hpayload : current.payload = base.payload := congrArg Commit.payload hsame
  rw [hpayload, happly] at hdelta
  cases hdelta
  exact ⟨j, hcommit⟩

theorem notOlder_of_fresh (hold : Authentic A old) (hnew : Authentic A new)
    (hkey : old.key = new.key) (hfresh : stale old new = false) : NotOlder old new := by
  obtain ⟨i, hi⟩ := hold
  obtain ⟨j, hj⟩ := hnew
  rw [hkey] at hi
  rcases Nat.lt_trichotomy i j with hlt | rfl | hlt
  · obtain ⟨hmarker, hroute, hversion⟩ := A.grows _ i j _ _ hlt hi hj
    exact ⟨hmarker, hroute, fun hm hr => (hversion hm hr).le⟩
  · have hsame := some.inj (hi.symm.trans hj)
    simp only [commitOf, Commit.mk.injEq] at hsame
    exact ⟨hsame.1.le, hsame.2.1.le, fun _ _ => hsame.2.2.1.le⟩
  · -- an earlier state that is not stale has the same epochs and no smaller version
    obtain ⟨hmarker, hroute, -⟩ := A.grows _ j i _ _ hlt hj hi
    simp only [commitOf] at hmarker hroute
    unfold stale at hfresh
    split_ifs at hfresh with hepochs
    · simp only [decide_eq_false_iff_not, not_or] at hfresh
      omega
    · simp only [decide_eq_false_iff_not] at hfresh
      refine ⟨?_, ?_, fun _ _ => ?_⟩ <;> omega

theorem NotOlder.refl (s : RemoteSnapshotEnvelope) : NotOlder s s :=
  ⟨le_rfl, le_rfl, fun _ _ => le_rfl⟩

theorem NotOlder.trans (hab : NotOlder a b) (hbc : NotOlder b c) : NotOlder a c := by
  obtain ⟨hmarker, hroute, hversion⟩ := hab
  obtain ⟨hmarker', hroute', hversion'⟩ := hbc
  refine ⟨hmarker.trans hmarker', hroute.trans hroute', fun hm hr => ?_⟩
  exact (hversion (by omega) (by omega)).trans (hversion' (by omega) (by omega))

end History

section Runs

variable {env : Env} {A : Authority} {cfg : RemoteSnapshotCacheConfig}
  {hash : RemoteSnapshotKey → Nat}

structure Ok (env : Env) (A : Authority) (s : Shared) : Prop where
  configured : Configured env s.cache.store
  entries : ∀ key e, lookup s.cache.store key = some e → e.value.key = key ∧ Authentic A e.value

def Knows (env : Env) (A : Authority) (_ : Nat) (_ : Shared) (pc : PC) : Prop :=
  (∀ snapshot, pc.carries = some snapshot → Authentic A snapshot) ∧
    ∀ update, pc = .updateRead update → update.full = false ∧ AuthenticUpdate env A update

variable {store : LocalStore} {key : RemoteSnapshotKey} {e : Entry _}

theorem lookup_set (hconfigured : Configured env store) (ranging : Range)
    (value : RemoteSnapshotEnvelope) (ttl now : Int)
    (hlookup : lookup (setWithTTL ranging store value ttl now).2 key = some e) :
    lookup store key = some e ∨
      key = value.key ∧ e.value = value ∧
        ∀ old, lookup store key = some old → stale old.value value = false := by
  rcases setWithTTL_cases ranging store value ttl now
    with hsame | ⟨k, expiresAt, hkey, hfresh, hset⟩
  · rw [hsame] at hlookup
    exact .inl hlookup
  rw [hset] at hlookup
  obtain rfl : value.key = k := by
    simp only [StoreConfig.keyOfValue, hconfigured.keyOf] at hkey
    split_ifs at hkey
    exact Except.ok.inj hkey
  rcases lookup_store ranging hlookup with ⟨-, hold⟩ | ⟨rfl, hvalue, -⟩
  · exact .inl hold
  · refine .inr ⟨rfl, hvalue, fun old hold => ?_⟩
    have hstale := hfresh old hold
    simpa only [StoreConfig.isStale, hconfigured.stale] using hstale

theorem cfg_setWithTTL (store : LocalStore) (ranging : Range) (value : RemoteSnapshotEnvelope)
    (ttl now : Int) : (setWithTTL ranging store value ttl now).2.cfg = store.cfg := by
  rcases setWithTTL_cases ranging store value ttl now with hsame | ⟨k, expiresAt, -, -, hset⟩
  · rw [hsame]
  · rw [hset]
    rfl

variable {g : Nat} {s : Shared} {pc : PC} {a : Act}

theorem authentic_origin (hok : Ok env A s) (hknows : Knows env A g s pc)
    (hoffered : Offered env A a) (horigin : Origin env s pc a snapshot) : Authentic A snapshot := by
  cases horigin with
  | kept hcarries => exact hknows.1 _ hcarries
  | publish | authoritative => exact authentic_sealed hoffered
  | full update _ hfull =>
    refine authentic_sealed ?_
    have hupdate : AuthenticUpdate env A update := hoffered
    rwa [AuthenticUpdate, if_pos hfull] at hupdate
  | delta hlookup hdelta =>
    obtain ⟨hfull, hupdate⟩ := hknows.2 _ rfl
    obtain ⟨hkey, hentry⟩ := hok.entries _ _ hlookup
    exact authentic_sealed (authentic_delta hfull hupdate hkey hentry hdelta)
  | loaded => exact hoffered

theorem lookup_change (hconfigured : Configured env store) (hchange : Change pc store store')
    (hlookup : lookup store' key = some e) :
    lookup store key = some e ∨
      key = e.value.key ∧ pc.carries = some e.value ∧
        ∀ old, lookup store key = some old → stale old.value e.value = false := by
  cases hchange with
  | fewer _ hfewer => exact .inl (hfewer key e hlookup)
  | set ranging value ttl now hcarries =>
    refine (lookup_set hconfigured ranging value ttl now hlookup).imp_right ?_
    rintro ⟨hkey, rfl, hfresh⟩
    exact ⟨hkey, hcarries, hfresh⟩

theorem configured_change (hconfigured : Configured env store) (hchange : Change pc store store') :
    Configured env store' := by
  obtain ⟨hkeyOf, hstale, hkey, hvalue⟩ := hconfigured
  have hcfg : store'.cfg = store.cfg := by
    cases hchange with
    | fewer hcfg => exact hcfg
    | set => exact cfg_setWithTTL ..
  exact ⟨hcfg ▸ hkeyOf, hcfg ▸ hstale, hcfg ▸ hkey, hcfg ▸ hvalue⟩

theorem keeps_step (hok : Ok env A s) (hknows : Knows env A g s pc) (hoffered : Offered env A a)
    (hstep : step env s pc a = some (s', pc')) :
    Keeps (Ok env A) (Knows env A) g s s' pc' := by
  obtain ⟨hchange, horigin⟩ := effect_step hstep
  refine ⟨⟨configured_change hok.configured hchange, ?_⟩, ⟨?_, ?_⟩, fun _ _ _ => id⟩
  · intro key e hlookup
    rcases lookup_change hok.configured hchange hlookup with hold | ⟨rfl, hcarries, -⟩
    · exact hok.entries key e hold
    · exact ⟨rfl, hknows.1 _ hcarries⟩
  · intro snapshot hcarries
    exact authentic_origin hok hknows hoffered (horigin snapshot hcarries)
  · rintro update rfl
    obtain ⟨hfull, now, rfl⟩ := delta_step hstep
    exact ⟨hfull, hoffered⟩

theorem notOlder_step (hok : Ok env A s) (hknows : Knows env A g s pc)
    (hstep : step env s pc a = some (s', pc')) (hold : lookup s.cache.store key = some e)
    (hnew : lookup s'.cache.store key = some e') :
    NotOlder e.value e'.value := by
  obtain ⟨hchange, -⟩ := effect_step hstep
  rcases lookup_change hok.configured hchange hnew with hsame | ⟨hkey, hcarries, hfresh⟩
  · obtain rfl := some.inj (hold.symm.trans hsame)
    exact NotOlder.refl _
  · obtain ⟨hkey', hauthentic⟩ := hok.entries key e hold
    exact notOlder_of_fresh hauthentic (hknows.1 _ hcarries) (hkey'.trans hkey) (hfresh e hold)

theorem holds_of_reach {s} (h : Reach (next env) (Initial env cfg hash) (offered env A) s) :
    Holds (Ok env A) (Knows env A) s := by
  refine Holds.of_reach h ?_ ?_
  · rintro _ rfl
    refine ⟨⟨⟨rfl, rfl, rfl, rfl⟩, nofun⟩, fun _ => ⟨nofun, nofun⟩⟩
  · intro s g a s' pc' hholds hoffered hstep
    exact keeps_step hholds.shared (hholds.knows g) hoffered hstep

/-- Steps after which the key still has an entry. -/
def staying (env : Env) (A : Authority) (key : RemoteSnapshotKey) (s : Threads Shared PC)
    (l : Nat × Act) : Prop :=
  offered env A s l ∧
    ∀ s', next env s l = some s' → (lookup s'.shared.cache.store key).isSome = true

theorem notOlder_path {s s' as} (hholds : Holds (Ok env A) (Knows env A) s)
    (hpath : Path (next env) (staying env A key) s as s')
    (hold : lookup s.shared.cache.store key = some e)
    (hnew : lookup s'.shared.cache.store key = some e') : NotOlder e.value e'.value := by
  induction hpath generalizing e with
  | nil =>
    obtain rfl := some.inj (hold.symm.trans hnew)
    exact NotOlder.refl _
  | @cons s t u l as hstaying hnext hrest ih =>
    obtain ⟨g, a⟩ := l
    obtain ⟨mid, hmid⟩ := isSome_iff_exists.mp (hstaying.2 t hnext)
    obtain ⟨w', pc', hstep, rfl⟩ := next_eq_some hnext
    have hfirst := notOlder_step hholds.shared (hholds.knows g) hstep hold hmid
    have hholds' : Holds (Ok env A) (Knows env A) _ := hholds.next (by
        rintro g' a' w pc ⟨⟩ hstep'
        exact keeps_step hholds.shared (hholds.knows g) hstaying.1 hstep') hnext
    exact hfirst.trans (ih hholds' hmid hnew)

end Runs

/-- Every payload is the content of its key at its epochs and version, which do not go back. -/
theorem cache_integrity (env : Env) (A : Authority) (cfg : RemoteSnapshotCacheConfig)
    (hash : RemoteSnapshotKey → Nat) {s : Threads Shared PC}
    (h : Reach (next env) (Initial env cfg hash) (offered env A) s) :
    (∀ key e, lookup s.shared.cache.store key = some e → e.value.key = key ∧ Authentic A e.value) ∧
    ∀ key as s' e e', Path (next env) (staying env A key) s as s' →
      lookup s.shared.cache.store key = some e → lookup s'.shared.cache.store key = some e' →
      NotOlder e.value e'.value := by
  have hholds := holds_of_reach h
  refine ⟨hholds.shared.entries, ?_⟩
  intro key as s' e e' hpath hold hnew
  exact notOlder_path hholds hpath hold hnew

section Example

def appending : Env where
  validKey _ := true
  checksum := List.length
  applyDelta _ base delta := .ok (base ++ delta)

def commits : List Commit :=
  [⟨1, 1, 1, 1, 1, [1]⟩, ⟨1, 1, 2, 1, 1, [1, 2]⟩, ⟨2, 1, 1, 1, 1, [9]⟩]

def three : Authority where
  commit _ i := commits[i]?
  grows := by
    intro _ i j a b hlt ha hb
    obtain ⟨hi, rfl⟩ := List.getElem?_eq_some_iff.mp ha
    obtain ⟨hj, rfl⟩ := List.getElem?_eq_some_iff.mp hb
    have hpairs : commits.Pairwise fun a b =>
        a.markerEpoch ≤ b.markerEpoch ∧ a.routeEpoch ≤ b.routeEpoch ∧
          (a.markerEpoch = b.markerEpoch → a.routeEpoch = b.routeEpoch →
            a.version < b.version) := by decide
    exact List.pairwise_iff_getElem.mp hpairs i j hi hj hlt

theorem authentic_three (h : commitOf s ∈ commits) : Authentic three s :=
  List.mem_iff_getElem?.mp h

def entity : RemoteSnapshotKey := ⟨1, 7, 2, 0, 0⟩

def snapshotOf (c : Commit) : RemoteSnapshotEnvelope :=
  { key := entity, stateVersion := c.version, baseVersion := 0, markerEpoch := c.markerEpoch,
    routeEpoch := c.routeEpoch, schema := c.schema, codec := c.codec, checksum := 0,
    full := true, publishedAt := 0, payload := c.payload }

def appendTwo : RemoteSnapshotRecord :=
  { key := entity, baseVersion := 1, stateVersion := 2, markerEpoch := 1, routeEpoch := 1,
    schema := 1, codec := 1, full := false, data := [2], checksum := 0 }

theorem authentic_appendTwo : AuthenticUpdate appending three appendTwo :=
  ⟨0, ⟨1, 1, 1, 1, 1, [1]⟩, 1, [1, 2], rfl, rfl, rfl, rfl, rfl, rfl⟩

def offeredTest : Act → Bool
  | .publish snapshot => commits.contains (commitOf snapshot)
  | .applyUpdate update _ => update = appendTwo
  | .reply (.ok (some value)) => commits.contains (commitOf value)
  | _ => true

theorem offered_of_test (h : offeredTest a = true) : Offered appending three a := by
  cases a with
  | publish => exact authentic_three (List.contains_iff_mem.mp h)
  | applyUpdate update =>
    obtain rfl : update = appendTwo := of_decide_eq_true h
    exact authentic_appendTwo
  | reply reply =>
    rcases reply with _ | _ | value
    · trivial
    · trivial
    · exact authentic_three (List.contains_iff_mem.mp h)
  | get | loadAuthoritative | delete | run => trivial

/-- A delta is applied to a snapshot, which comes again and is stale; a load brings a new epoch. -/
theorem cache_integrity_three :
    ∃ s, Reach (next appending) (Initial appending ⟨1, 2, 0, 0⟩ fun _ => 0)
        (offered appending three) s ∧
      (lookup s.shared.cache.store entity).map (·.value.payload) = some [9] ∧
      (∀ key e, lookup s.shared.cache.store key = some e →
        e.value.key = key ∧ Authentic three e.value) ∧
      ∀ key as s' e e', Path (next appending) (staying appending three key) s as s' →
        lookup s.shared.cache.store key = some e → lookup s'.shared.cache.store key = some e' →
        NotOlder e.value e'.value := by
  refine exists_reach_imp (P := fun s =>
      (lookup s.shared.cache.store entity).map (·.value.payload) = some [9])
    (exists_of_run rfl (fun _ l => offeredTest l.2)
      [(1, .publish (snapshotOf ⟨1, 1, 1, 1, 1, [1]⟩)), (1, .run 5 inOrder), (1, .run 5 inOrder),
        (1, .run 5 inOrder), (1, .run 5 inOrder), (2, .applyUpdate appendTwo 6),
        (2, .run 6 inOrder), (2, .run 6 inOrder), (2, .run 6 inOrder), (2, .run 6 inOrder),
        (1, .publish (snapshotOf ⟨1, 1, 1, 1, 1, [1]⟩)), (2, .run 6 inOrder),
        (1, .run 7 inOrder), (1, .run 7 inOrder), (1, .run 7 inOrder), (1, .run 7 inOrder),
        (3, .loadAuthoritative entity 1),
        (3, .reply (.ok (some (snapshotOf ⟨2, 1, 1, 1, 1, [9]⟩)))),
        (3, .run 8 inOrder), (3, .run 8 inOrder), (3, .run 8 inOrder), (3, .run 8 inOrder),
        (3, .run 9 inOrder)]
      (fun _ l _ (htest : offeredTest l.2 = true) => offered_of_test htest) (by decide +kernel)) ?_
  intro s hreach hs
  obtain ⟨hentries, hpaths⟩ := cache_integrity appending three ⟨1, 2, 0, 0⟩ (fun _ => 0) hreach
  exact ⟨hs, hentries, hpaths⟩

end Example

end CubeCore.SnapshotIntegrity
