import CubeCore.AtomicLocal

namespace CubeCore.RemoteSnapshot

open AtomicLocal

structure RemoteSnapshotKey where
  tenant : Nat
  entityID : Int
  kind : Nat
  scope : Nat
  policy : Nat
deriving DecidableEq

structure RemoteSnapshotEnvelope where
  key : RemoteSnapshotKey
  stateVersion : Nat
  baseVersion : Nat
  markerEpoch : Nat
  routeEpoch : Nat
  schema : Nat
  codec : Nat
  checksum : Nat
  full : Bool
  publishedAt : Int
  payload : List UInt8
deriving DecidableEq

structure RemoteSnapshotRecord where
  key : RemoteSnapshotKey
  baseVersion : Nat
  stateVersion : Nat
  markerEpoch : Nat
  routeEpoch : Nat
  schema : Nat
  codec : Nat
  full : Bool
  data : List UInt8
  checksum : Nat
deriving DecidableEq

/-- The valid keys, the CRC and the delta functions. -/
structure Env where
  validKey : RemoteSnapshotKey → Bool
  checksum : List UInt8 → Nat
  applyDelta : Nat → List UInt8 → List UInt8 → Except String (List UInt8)

inductive SnapshotError where
  | stale
  | versionConflict
  | gap
  | epochMismatch
  | schemaMismatch
  | checksumMismatch
  | cache (err : CacheError)
  | external (message : String)
deriving DecidableEq

variable (env : Env)

def RemoteSnapshotEnvelope.valid (s : RemoteSnapshotEnvelope) : Option String :=
  if env.validKey s.key = false ∨ s.stateVersion = 0 ∨ s.markerEpoch = 0 ∨ s.routeEpoch = 0 ∨
      s.schema = 0 ∨ s.payload.length = 0 then
    some "remote snapshot: invalid envelope"
  else if s.checksum ≠ env.checksum s.payload then some "remote snapshot: checksum mismatch"
  else if s.full = false ∧ s.baseVersion = 0 then
    some "remote snapshot: delta missing base version"
  else none

/-- The rule of the cache for a value that may not replace another one. -/
def stale (old next : RemoteSnapshotEnvelope) : Bool :=
  if old.markerEpoch ≠ next.markerEpoch ∨ old.routeEpoch ≠ next.routeEpoch then
    next.markerEpoch < old.markerEpoch ∨ next.routeEpoch < old.routeEpoch
  else next.stateVersion < old.stateVersion

structure RemoteSnapshotCacheConfig where
  shards : Int
  maxEntries : Int
  maxBytes : Int
  ttl : Int

abbrev LocalStore := AtomicLocalStore RemoteSnapshotKey RemoteSnapshotEnvelope

def newLocal (cfg : RemoteSnapshotCacheConfig) (hash : RemoteSnapshotKey → Nat) : LocalStore :=
  newAtomicLocalStore
    { keyOf := some RemoteSnapshotEnvelope.key
      stale := some stale
      validateKey := some env.validKey
      validateValue := some (RemoteSnapshotEnvelope.valid env)
      shards := cfg.shards
      maxEntries := cfg.maxEntries
      maxBytes := cfg.maxBytes
      defaultTTL := cfg.ttl
      sizeOf := some fun value => value.payload.length + 96 }
    hash

/-- The local store of the cache, and `LocalTTL` of its read-through store. -/
structure RemoteSnapshotCache where
  store : LocalStore
  ttl : Int

def newRemoteSnapshotCache (cfg : RemoteSnapshotCacheConfig) (hash : RemoteSnapshotKey → Nat) :
    RemoteSnapshotCache where
  store := newLocal env cfg hash
  ttl := cfg.ttl

abbrev Range := Ranging RemoteSnapshotKey RemoteSnapshotEnvelope

def readLocal (c : RemoteSnapshotCache) (key : RemoteSnapshotKey) (now now' : Int) :
    Option RemoteSnapshotEnvelope × RemoteSnapshotCache :=
  let (value, store) := get c.store key now now'
  (value, { c with store })

variable (ranging : Range) (c : RemoteSnapshotCache)

def setLocal (value : RemoteSnapshotEnvelope) (now : Int) :
    Option CacheError × RemoteSnapshotCache :=
  let (err, store) := setWithTTL ranging c.store value c.ttl now
  (err, { c with store })

/-- `ReadThroughStore.Set`. Errors of the L2 store are ignored by this cache. -/
def layeredSet (value : RemoteSnapshotEnvelope) (now : Int) :
    Option CacheError × RemoteSnapshotCache :=
  match c.store.cfg.validateValue.bind fun validate => validate value with
  | some message => (some (.invalidValue message), c)
  | none =>
    match c.store.cfg.keyOfValue value with
    | .error err => (some err, c)
    | .ok _ => setLocal ranging c value now

/-- The snapshot as `Publish` stores it. -/
def sealed (snapshot : RemoteSnapshotEnvelope) : RemoteSnapshotEnvelope :=
  { snapshot with checksum := env.checksum snapshot.payload }

/-- What `Publish` decides by what it has read: an error, nothing more to do, or to store. -/
def publishDecision (current : Option RemoteSnapshotEnvelope)
    (snapshot : RemoteSnapshotEnvelope) : Option (Option SnapshotError) :=
  match current with
  | none => none
  | some current =>
    if current.markerEpoch = snapshot.markerEpoch ∧ current.routeEpoch = snapshot.routeEpoch ∧
        current.stateVersion = snapshot.stateVersion then
      if current.schema ≠ snapshot.schema ∨ current.codec ≠ snapshot.codec ∨
          current.checksum ≠ snapshot.checksum then
        some (some .versionConflict)
      else some none
    else none

/-- The readings of the clock in one call, in their order. -/
structure Clock where
  read : Int
  expire : Int
  set : Int

/-- `Publish` with no other call between its steps. -/
def publish (snapshot : RemoteSnapshotEnvelope) (clock : Clock) :
    Option SnapshotError × RemoteSnapshotCache :=
  let snapshot := sealed env snapshot
  let (current, c) := readLocal c snapshot.key clock.read clock.expire
  match publishDecision current snapshot with
  | some result => (result, c)
  | none =>
    let (err, c) := layeredSet ranging c snapshot clock.set
    (err.map .cache, c)

def fullEnvelope (update : RemoteSnapshotRecord) (publishedAt : Int) : RemoteSnapshotEnvelope where
  key := update.key
  stateVersion := update.stateVersion
  baseVersion := update.baseVersion
  markerEpoch := update.markerEpoch
  routeEpoch := update.routeEpoch
  schema := update.schema
  codec := update.codec
  checksum := 0
  full := true
  publishedAt := publishedAt
  payload := update.data

/-- What `ApplyUpdate` makes of a delta and the value it has read. -/
def deltaEnvelope (current : Option RemoteSnapshotEnvelope) (update : RemoteSnapshotRecord)
    (publishedAt : Int) : Except SnapshotError RemoteSnapshotEnvelope :=
  match current with
  | none => .error .gap
  | some current =>
    if current.stateVersion ≠ update.baseVersion then .error .gap
    else if current.markerEpoch ≠ update.markerEpoch ∨ current.routeEpoch ≠ update.routeEpoch then
      .error .epochMismatch
    else if current.schema ≠ update.schema ∨ current.codec ≠ update.codec then
      .error .schemaMismatch
    else
      match env.applyDelta update.schema current.payload update.data with
      | .error err => .error (.external err)
      | .ok data => .ok { fullEnvelope update publishedAt with full := false, payload := data }

def checksumOk (update : RemoteSnapshotRecord) : Bool :=
  update.checksum = 0 ∨ env.checksum update.data = update.checksum

/-- What the loader or the L2 store answers: an error, nothing, or a snapshot. -/
abbrev Reply := Except String (Option RemoteSnapshotEnvelope)

/-- `loadOne`; without an L2 store or a loader its answer is `none`. -/
def loadOne (remote loader : Option Reply) (now : Int) :
    Except SnapshotError (Option RemoteSnapshotEnvelope) × RemoteSnapshotCache :=
  match remote with
  | some (.ok (some value)) => (.ok (some value), (setLocal ranging c value now).2)
  | _ =>
    match loader with
    | none => (.ok none, c)
    | some (.error err) => (.error (.external err), c)
    | some (.ok none) => (.ok none, c)
    | some (.ok (some value)) =>
      match setLocal ranging c value now with
      | (some err, c) => (.error (.cache err), c)
      | (none, c) => (.ok (some value), c)

inductive RemoteReadConsistency where
  | monotonic
  | cached
  | linearizable
deriving DecidableEq

variable (key : RemoteSnapshotKey)

/-- `ReadThroughStore.Get` for a key that no other goroutine is loading. -/
def layeredGet (remote loader : Option Reply) (clock : Clock) :
    Except SnapshotError (Option RemoteSnapshotEnvelope) × RemoteSnapshotCache :=
  if c.store.cfg.validKey key = false then (.ok none, c)
  else
    match readLocal c key clock.read clock.expire with
    | (some value, c) => (.ok (some value), c)
    | (none, c) => loadOne ranging c remote loader clock.set

def getSnapshot (consistency : RemoteReadConsistency) (minVersion : Nat)
    (remote loader : Option Reply) (clock : Clock) :
    Except SnapshotError (Option RemoteSnapshotEnvelope) × RemoteSnapshotCache :=
  match layeredGet ranging c key remote loader clock with
  | (.ok (some snapshot), c) =>
    if consistency = .cached ∨ minVersion ≤ snapshot.stateVersion then (.ok (some snapshot), c)
    else (.error .stale, c)
  | result => result

/-- With no other call between its steps; the last two clock readings are those of its own read. -/
def loadAuthoritative (minVersion : Nat) (loader : Option Reply) (clock : Clock) (now now' : Int) :
    Except SnapshotError (Option RemoteSnapshotEnvelope) × RemoteSnapshotCache :=
  match loader with
  | none => (.ok none, c)
  | some (.error err) => (.error (.external err), c)
  | some (.ok none) => (.ok none, c)
  | some (.ok (some snapshot)) =>
    if snapshot.stateVersion < minVersion then (.error .stale, c)
    else
      match publish env ranging c snapshot clock with
      | (some err, c) => (.error err, c)
      | (none, c) =>
        let (stored, c) := readLocal c key now now'
        (.ok stored, c)

end CubeCore.RemoteSnapshot
