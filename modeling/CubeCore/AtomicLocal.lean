import Mathlib.Data.List.AList

namespace CubeCore.AtomicLocal

open Function AList

inductive CacheError where
  | keyFuncNil
  | invalidKey
  | entryTooLarge
  | invalidValue (message : String)
deriving DecidableEq

/-- `StoreConfig`; a function that is nil is `none`. -/
structure StoreConfig (K V : Type) where
  keyOf : Option (V → K)
  stale : Option (V → V → Bool)
  validateKey : Option (K → Bool)
  validateValue : Option (V → Option String)

structure AtomicLocalConfig (K V : Type) extends StoreConfig K V where
  shards : Int
  maxEntries : Int
  maxBytes : Int
  defaultTTL : Int
  sizeOf : Option (V → Int)

structure Entry (V : Type) where
  value : V
  expiresAt : Int
  size : Int
  generation : Nat

structure Shard (K V : Type) where
  items : AList fun _ : K => Entry V
  order : List (K × Nat)
  hand : Nat
  entries : Int
  bytes : Int
  generation : Nat

structure Stats where
  hits : Nat
  misses : Nat
  expired : Nat
  evictions : Nat
  entries : Int
  bytes : Int

/-- The store; `hash` is `maphash` with the seed of the store. -/
structure AtomicLocalStore (K V : Type) where
  cfg : AtomicLocalConfig K V
  hash : K → Nat
  shardCount : Nat
  shards : Nat → Shard K V
  maxPerShard : Int
  bytesPerShard : Int
  stats : Stats

variable {K V : Type}

namespace StoreConfig

variable (cfg : StoreConfig K V)

def validKey (key : K) : Bool :=
  match cfg.validateKey with
  | none => true
  | some validate => validate key

def keyOfValue (value : V) : Except CacheError K :=
  match cfg.keyOf with
  | none => .error .keyFuncNil
  | some keyOf => if cfg.validKey (keyOf value) then .ok (keyOf value) else .error .invalidKey

def isStale (old next : V) : Bool :=
  match cfg.stale with
  | none => false
  | some stale => stale old next

end StoreConfig

/-- `for shards < shardCount { shards <<= 1 }`. -/
def doubled (shardCount : Nat) : Nat → Nat → Nat
  | 0, shards => shards
  | fuel + 1, shards =>
    if shards < shardCount then doubled shardCount fuel (2 * shards) else shards

def newAtomicLocalStore (cfg : AtomicLocalConfig K V) (hash : K → Nat) : AtomicLocalStore K V :=
  let shardCount := if cfg.shards ≤ 0 then 64 else cfg.shards.toNat
  let shards := doubled shardCount shardCount 1
  { cfg
    hash
    shardCount := shards
    shards := fun _ =>
      { items := ∅, order := [], hand := 0, entries := 0, bytes := 0, generation := 0 }
    maxPerShard := if 0 < cfg.maxEntries then (cfg.maxEntries + shards - 1) / shards else 0
    bytesPerShard := if 0 < cfg.maxBytes then (cfg.maxBytes + shards - 1) / shards else 0
    stats := ⟨0, 0, 0, 0, 0, 0⟩ }

namespace AtomicLocalStore

variable (s : AtomicLocalStore K V)

def index (key : K) : Nat := s.hash key &&& (s.shardCount - 1)

def shard (key : K) : Shard K V := s.shards (s.index key)

def setShard (key : K) (shard : Shard K V) : AtomicLocalStore K V :=
  { s with shards := Function.update s.shards (s.index key) shard }

end AtomicLocalStore

def expiredAt (entry : Entry V) (now : Int) : Prop := 0 < entry.expiresAt ∧ entry.expiresAt ≤ now

instance (entry : Entry V) (now : Int) : Decidable (expiredAt entry now) :=
  inferInstanceAs (Decidable (_ ∧ _))

variable [DecidableEq K]

/-- The entry of a key, read under the lock of its shard. -/
def lookup (s : AtomicLocalStore K V) (key : K) : Option (Entry V) :=
  (s.shard key).items.lookup key

def deleteLocked (shard : Shard K V) (stats : Stats) (key : K) : Shard K V × Stats × Bool :=
  match shard.items.lookup key with
  | none => (shard, stats, false)
  | some entry =>
    ({ shard with
        items := shard.items.erase key
        entries := shard.entries - 1
        bytes := shard.bytes - entry.size },
      { stats with entries := stats.entries - 1, bytes := stats.bytes - entry.size },
      true)

/-- The order in which a `range` over the items yields them. -/
def Ranging (K V : Type) : Type := (AList fun _ : K => Entry V) → List (K × Nat)

def inOrder : Ranging K V := fun items => items.entries.map fun item => (item.1, item.2.generation)

variable (ranging : Ranging K V)

/-- One turn of the loop of `evictLocked`, and whether the loop goes on. -/
def evictTurn (shard : Shard K V) (stats : Stats) : Shard K V × Stats × Bool :=
  let shard :=
    if shard.order.length ≤ shard.hand then
      { shard with order := ranging shard.items, hand := 0 }
    else shard
  match shard.order[shard.hand]? with
  | none => (shard, stats, false)
  | some candidate =>
    let shard := { shard with hand := shard.hand + 1 }
    match shard.items.lookup candidate.1 with
    | none => (shard, stats, true)
    | some entry =>
      if entry.generation ≠ candidate.2 then (shard, stats, true)
      else
        let (shard, stats, deleted) := deleteLocked shard stats candidate.1
        (shard, if deleted then { stats with evictions := stats.evictions + 1 } else stats,
          true)

/-- The loop of `evictLocked`; false when it has returned out of the function. -/
def evictLoop (maxPerShard bytesPerShard : Int) (ranging : Ranging K V) :
    Nat → Shard K V → Stats → Shard K V × Stats × Bool
  | 0, shard, stats => (shard, stats, true)
  | fuel + 1, shard, stats =>
    if 0 < maxPerShard ∧ maxPerShard < shard.entries ∨
        0 < bytesPerShard ∧ bytesPerShard < shard.bytes then
      match evictTurn ranging shard stats with
      | (shard, stats, false) => (shard, stats, false)
      | (shard, stats, true) => evictLoop maxPerShard bytesPerShard ranging fuel shard stats
    else (shard, stats, true)

/-- The old records, a new one for each item and a last test are all the turns of the loop. -/
def evictLocked (maxPerShard bytesPerShard : Int) (ranging : Ranging K V) (shard : Shard K V)
    (stats : Stats) : Shard K V × Stats :=
  let fuel := shard.order.length - shard.hand + shard.items.entries.length + 1
  match evictLoop maxPerShard bytesPerShard ranging fuel shard stats with
  | (shard, stats, false) => (shard, stats)
  | (shard, stats, true) =>
    if 1024 < shard.hand ∧ shard.order.length < shard.hand * 2 then
      ({ shard with order := shard.order.drop shard.hand, hand := 0 }, stats)
    else (shard, stats)

variable (s : AtomicLocalStore K V)

/-- `expire`: the entry goes if it is still the one that was read. -/
def expire (key : K) (generation : Nat) (now : Int) : AtomicLocalStore K V :=
  match lookup s key with
  | none => s
  | some entry =>
    if entry.generation = generation ∧ expiredAt entry now then
      let (shard, stats, _) := deleteLocked (s.shard key) s.stats key
      { s.setShard key shard with stats }
    else s

/-- `Get`; the clock is read when the entry was found and again in `expire`. -/
def get (key : K) (now now' : Int) : Option V × AtomicLocalStore K V :=
  if s.cfg.validKey key = false then (none, s)
  else
    match lookup s key with
    | none => (none, { s with stats := { s.stats with misses := s.stats.misses + 1 } })
    | some entry =>
      if expiredAt entry now then
        let s := expire s key entry.generation now'
        (none,
          { s with stats :=
              { s.stats with
                expired := s.stats.expired + 1
                misses := s.stats.misses + 1 } })
      else
        (some entry.value, { s with stats := { s.stats with hits := s.stats.hits + 1 } })

def sizeOfValue (cfg : AtomicLocalConfig K V) (value : V) : Int :=
  match cfg.sizeOf with
  | none => 0
  | some sizeOf => max 0 (sizeOf value)

/-- `SetWithTTL` once the value is checked and its key is known. -/
def store (s : AtomicLocalStore K V) (key : K) (value : V) (expiresAt : Int) :
    AtomicLocalStore K V :=
  let shard := s.shard key
  let old := shard.items.lookup key
  let size := sizeOfValue s.cfg value
  let generation := shard.generation + 1
  let grown := size - (old.map (·.size)).getD 0
  let added : Int := if old.isSome then 0 else 1
  let shard :=
    { shard with
      items := shard.items.insert key { value, expiresAt, size, generation }
      order := shard.order ++ [(key, generation)]
      entries := shard.entries + added
      bytes := shard.bytes + grown
      generation }
  let stats :=
    { s.stats with entries := s.stats.entries + added, bytes := s.stats.bytes + grown }
  let (shard, stats) := evictLocked s.maxPerShard s.bytesPerShard ranging shard stats
  { s.setShard key shard with stats }

def setWithTTL (s : AtomicLocalStore K V) (value : V) (ttl now : Int) :
    Option CacheError × AtomicLocalStore K V :=
  match s.cfg.validateValue.bind fun validate => validate value with
  | some message => (some (.invalidValue message), s)
  | none =>
    match s.cfg.keyOfValue value with
    | .error err => (some err, s)
    | .ok key =>
      if 0 < s.cfg.maxBytes ∧ s.bytesPerShard < sizeOfValue s.cfg value then
        (some .entryTooLarge, s)
      else
        let ttl := if ttl = 0 then s.cfg.defaultTTL else ttl
        let expiresAt := if 0 < ttl then now + ttl else 0
        if (lookup s key).any fun old => s.cfg.isStale old.value value then (none, s)
        else (none, store ranging s key value expiresAt)

def delete (key : K) : AtomicLocalStore K V :=
  if s.cfg.validKey key = false then s
  else
    let (shard, stats, _) := deleteLocked (s.shard key) s.stats key
    { s.setShard key shard with stats }

section Lookup

variable {s : AtomicLocalStore K V} {key k : K} {e : Entry V}

def Sub (shard' shard : Shard K V) : Prop :=
  ∀ k e, shard'.items.lookup k = some e → shard.items.lookup k = some e

variable (shard : Shard K V) (stats : Stats)

theorem sub_deleteLocked (key : K) : Sub (deleteLocked shard stats key).1 shard := by
  intro k e hlookup
  unfold deleteLocked at hlookup
  split at hlookup
  · exact hlookup
  rcases eq_or_ne k key with rfl | hk
  · rw [lookup_erase] at hlookup
    cases hlookup
  · rwa [lookup_erase_ne hk] at hlookup

theorem lookup_deleteLocked_self (key : K) :
    (deleteLocked shard stats key).1.items.lookup key = none := by
  unfold deleteLocked
  split
  · rename_i hnone
    exact hnone
  · exact lookup_erase ..

variable (ranging : Ranging K V)

theorem sub_evictTurn (shard : Shard K V) (stats : Stats) :
    Sub (evictTurn ranging shard stats).1 shard := by
  have hclock : ∀ order hand, Sub { shard with order, hand } shard := fun _ _ _ _ h => h
  unfold evictTurn
  dsimp only
  generalize hturned : (if shard.order.length ≤ shard.hand then
    { shard with order := ranging shard.items, hand := 0 } else shard) = turned
  have hsub : ∀ hand, Sub { turned with hand } shard := by
    intro hand
    rw [← hturned]
    split
    · exact hclock _ _
    · exact hclock _ _
  split
  · exact hsub turned.hand
  split
  · exact hsub _
  · split
    · exact hsub _
    · exact fun k e h => hsub _ k e (sub_deleteLocked _ stats _ k e h)

theorem sub_evictLoop (maxPerShard bytesPerShard : Int) (ranging : Ranging K V) (fuel : Nat)
    (shard : Shard K V) (stats : Stats) :
    Sub (evictLoop maxPerShard bytesPerShard ranging fuel shard stats).1 shard := by
  induction fuel generalizing shard stats with
  | zero => exact fun _ _ => id
  | succ fuel ih =>
    have hturn := sub_evictTurn ranging shard stats
    unfold evictLoop
    split
    · split
      · rename_i shard' stats' hresult
        rwa [hresult] at hturn
      · rename_i shard' stats' hresult
        rw [hresult] at hturn
        exact fun k e h => hturn k e (ih shard' stats' k e h)
    · exact fun _ _ => id

theorem sub_evictLocked (maxPerShard bytesPerShard : Int) (ranging : Ranging K V)
    (shard : Shard K V) (stats : Stats) :
    Sub (evictLocked maxPerShard bytesPerShard ranging shard stats).1 shard := by
  have hloop := sub_evictLoop maxPerShard bytesPerShard ranging
    (shard.order.length - shard.hand + shard.items.entries.length + 1) shard stats
  unfold evictLocked
  dsimp only
  split
  · rename_i hresult
    rwa [hresult] at hloop
  rename_i hresult
  rw [hresult] at hloop
  split
  · exact hloop
  · exact hloop

theorem lookup_setShard {shard : Shard K V} {stats : Stats} :
    lookup { s.setShard key shard with stats } k =
      if s.index k = s.index key then shard.items.lookup k else lookup s k := by
  show (update s.shards (s.index key) shard (s.index k)).items.lookup k = _
  by_cases hindex : s.index k = s.index key
  · rw [if_pos hindex, hindex, update_self]
  · rw [if_neg hindex, update_of_ne hindex]
    rfl

theorem lookup_of_sub {shard : Shard K V} {stats : Stats} (hsub : Sub shard (s.shard key))
    (hlookup : lookup { s.setShard key shard with stats } k = some e) : lookup s k = some e := by
  rw [lookup_setShard] at hlookup
  split_ifs at hlookup with hindex
  · have hold := hsub k e hlookup
    rwa [AtomicLocalStore.shard, ← hindex] at hold
  · exact hlookup

variable {value : V}

theorem lookup_store {expiresAt : Int}
    (hlookup : lookup (store ranging s key value expiresAt) k = some e) :
    k ≠ key ∧ lookup s k = some e ∨ k = key ∧ e.value = value ∧ e.expiresAt = expiresAt := by
  unfold store at hlookup
  rw [lookup_setShard] at hlookup
  split at hlookup
  · rename_i hindex
    have hitems := sub_evictLocked _ _ ranging _ _ k e hlookup
    rcases eq_or_ne k key with rfl | hk
    · rw [lookup_insert] at hitems
      cases hitems
      exact .inr ⟨rfl, rfl, rfl⟩
    · rw [lookup_insert_ne hk] at hitems
      refine .inl ⟨hk, ?_⟩
      rwa [AtomicLocalStore.shard, ← hindex] at hitems
  · rename_i hindex
    refine .inl ⟨?_, hlookup⟩
    rintro rfl
    exact hindex rfl

theorem setWithTTL_cases (s : AtomicLocalStore K V) (value : V) (ttl now : Int) :
    (setWithTTL ranging s value ttl now).2 = s ∨
      ∃ key expiresAt, s.cfg.keyOfValue value = .ok key ∧
        (∀ old, lookup s key = some old → s.cfg.isStale old.value value = false) ∧
        setWithTTL ranging s value ttl now = (none, store ranging s key value expiresAt) := by
  fun_cases setWithTTL ranging s value ttl now with
  | case5 _ key hkey _ _ _ hfresh =>
    refine .inr ⟨key, _, hkey, ?_, rfl⟩
    intro old hold
    rw [hold] at hfresh
    simpa using hfresh
  | _ => exact .inl rfl

structure Accepts (s : AtomicLocalStore K V) (key : K) (value : V) : Prop where
  valid : (s.cfg.validateValue.bind fun validate => validate value) = none
  keyOf : s.cfg.keyOfValue value = .ok key
  fits : ¬ (0 < s.cfg.maxBytes ∧ s.bytesPerShard < sizeOfValue s.cfg value)

variable {now ttl : Int}

theorem setWithTTL_eq_ok {ranging s'} (hkey : s.cfg.keyOfValue value = .ok key)
    (h : setWithTTL ranging s value ttl now = (none, s')) :
    Accepts s key value ∧
      ((∃ old, lookup s key = some old ∧ s.cfg.isStale old.value value = true) ∧ s' = s ∨
        ∃ expiresAt, s' = store ranging s key value expiresAt) := by
  unfold setWithTTL at h
  split at h
  · cases h
  rename_i hvalid
  rw [hkey] at h
  dsimp only at h
  split at h
  · cases h
  rename_i hfits
  refine ⟨⟨hvalid, hkey, hfits⟩, ?_⟩
  split at h
  · rename_i hstale
    cases h
    cases hold : lookup s key with
    | none => simp [hold] at hstale
    | some old => exact .inl ⟨⟨old, rfl, by simpa [hold] using hstale⟩, rfl⟩
  · cases h
    exact .inr ⟨_, rfl⟩

theorem setWithTTL_of_stale {ranging} (haccepts : Accepts s key value)
    (hlookup : lookup s key = some e) (hstale : s.cfg.isStale e.value value = true) :
    setWithTTL ranging s value ttl now = (none, s) := by
  unfold setWithTTL
  rw [haccepts.valid, haccepts.keyOf]
  dsimp only
  rw [if_neg haccepts.fits, hlookup]
  simp [hstale]

variable {now' : Int}

theorem get_eq_some :
    (get s key now now').1 = some value ↔
      s.cfg.validKey key = true ∧ ∃ e, lookup s key = some e ∧ ¬ expiredAt e now ∧
        e.value = value := by
  unfold get
  split
  · rename_i hkey
    simp [hkey]
  rename_i hkey
  cases lookup s key with
  | none => simp
  | some e =>
    by_cases hexpired : expiredAt e now
    · simp [hexpired]
    · simp [hkey, hexpired]

theorem lookup_expire {generation : Nat}
    (hlookup : lookup (expire s key generation now) k = some e) : lookup s k = some e := by
  unfold expire at hlookup
  split at hlookup
  · exact hlookup
  split at hlookup
  · exact lookup_of_sub (sub_deleteLocked _ _ _) hlookup
  · exact hlookup

theorem lookup_expire_self (hlookup : lookup s key = some e) :
    lookup (expire s key e.generation now) key = if expiredAt e now then none else some e := by
  unfold expire
  rw [hlookup]
  dsimp only
  by_cases hexpired : expiredAt e now
  · rw [if_pos ⟨rfl, hexpired⟩, if_pos hexpired, lookup_setShard, if_pos rfl]
    exact lookup_deleteLocked_self ..
  · rw [if_neg (fun h => hexpired h.2), if_neg hexpired, hlookup]

theorem lookup_get_self (hkey : s.cfg.validKey key = true) :
    lookup (get s key now now').2 key = some e ↔
      lookup s key = some e ∧ ¬ (expiredAt e now ∧ expiredAt e now') := by
  unfold get
  rw [if_neg (by simp [hkey])]
  cases hlookup : lookup s key with
  | none =>
    show lookup s key = some e ↔ _
    simp [hlookup]
  | some old =>
    dsimp only
    by_cases hexpired : expiredAt old now
    · rw [if_pos hexpired]
      show lookup (expire s key old.generation now') key = some e ↔ _
      rw [lookup_expire_self hlookup]
      split_ifs with hexpired'
      · refine ⟨nofun, ?_⟩
        rintro ⟨⟨⟩, hsurvives⟩
        exact absurd ⟨hexpired, hexpired'⟩ hsurvives
      · refine ⟨?_, fun h => h.1⟩
        rintro ⟨⟩
        exact ⟨rfl, fun h => hexpired' h.2⟩
    · rw [if_neg hexpired]
      show lookup s key = some e ↔ _
      rw [hlookup]
      refine ⟨?_, fun h => h.1⟩
      rintro ⟨⟩
      exact ⟨rfl, fun h => hexpired h.1⟩

theorem get_frame (s : AtomicLocalStore K V) (key : K) (now now' : Int) :
    (get s key now now').2.cfg = s.cfg ∧
      (get s key now now').2.bytesPerShard = s.bytesPerShard := by
  fun_cases get s key now now' with
  | case3 _ entry =>
    show (expire s key entry.generation now').cfg = _ ∧ (expire ..).bytesPerShard = _
    fun_cases expire s key entry.generation now' <;> exact ⟨rfl, rfl⟩
  | _ => exact ⟨rfl, rfl⟩

theorem accepts_get : Accepts (get s key now now').2 k value ↔ Accepts s k value := by
  obtain ⟨hcfg, hbytes⟩ := get_frame s key now now'
  constructor
  · rintro ⟨hvalid, hkeyOf, hfits⟩
    rw [hcfg] at hvalid hkeyOf hfits
    rw [hbytes] at hfits
    exact ⟨hvalid, hkeyOf, hfits⟩
  rintro ⟨hvalid, hkeyOf, hfits⟩
  refine ⟨?_, ?_, ?_⟩
  · rwa [hcfg]
  · rwa [hcfg]
  · rwa [hcfg, hbytes]

theorem lookup_delete (hlookup : lookup (delete s key) k = some e) : lookup s k = some e := by
  unfold delete at hlookup
  split at hlookup
  · exact hlookup
  · exact lookup_of_sub (sub_deleteLocked _ _ _) hlookup

end Lookup

end CubeCore.AtomicLocal
