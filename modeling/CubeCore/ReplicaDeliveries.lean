import CubeCore.ClearedRegister
import CubeCore.ReplicaSync
import Mathlib.Data.List.Perm.Subperm

namespace CubeCore.ReplicaDeliveries

open AtomicLocal LocalCache ReplicaSync List AList ClearedRegister

/-- Functions that agree with each other and with a JSON that gives back what it was made of. -/
structure Setting (B K V : Type) where
  codec : Codec B V
  topic : String
  keyOf : V → Int
  versionOf : V → Int
  updatedAtOf : Option (V → Int)
  storeKey : Int → K
  validateKey : Option (K → Bool)
  validateValue : Option (V → Option String)
  topic_ne : topic ≠ ""
  storeKey_injective : Function.Injective storeKey
  unmarshal_marshal : ∀ value, ∃ raw, codec.marshal value = .ok raw ∧
    codec.unmarshal raw = .ok value
  unmarshal_envelope : ∀ env, codec.unmarshalEnvelope (codec.marshalEnvelope env) = .ok env
  envelope_ne : ∀ env, codec.marshalEnvelope env ≠ codec.empty

/-- An operation that was published, an upsert with the clock at that time. -/
inductive Published (V : Type) where
  | upsert (value : V) (now : Int)
  | delete (key version : Int)
deriving DecidableEq

/-- What the store is to hold by an operation. -/
def Published.result {V : Type} : Published V → Option V
  | .upsert value _ => some value
  | .delete _ _ => none

variable {B K V : Type}

namespace Setting

variable (S : Setting B K V)

def replicaConfig : ReplicaConfig K V where
  topic := S.topic
  keyOf := some S.keyOf
  versionOf := some S.versionOf
  updatedAtOf := S.updatedAtOf
  deleteKeyOf := some S.storeKey

def storeConfig : StoreConfig K V where
  keyOf := some fun value => S.storeKey (S.keyOf value)
  stale := some (versionStale (some S.versionOf))
  validateKey := S.validateKey
  validateValue := S.validateValue

def key : Published V → Int
  | .upsert value _ => S.keyOf value
  | .delete key _ => key

def version : Published V → Int
  | .upsert value _ => S.versionOf value
  | .delete _ version => version

def message : Published V → Option (SyncMsg B)
  | .upsert value now => publish S.codec S.replicaConfig value now
  | .delete key version => publishDelete S.codec S.topic key version

/-- The key is not zero, which stands for no key, and the store accepts key and value. -/
def Proper (op : Published V) : Prop :=
  S.key op ≠ 0 ∧ S.storeConfig.validKey (S.storeKey (S.key op)) = true ∧
    ∀ value, op.result = some value →
      (S.validateValue.bind fun validate => validate value) = none

def Increasing (published : List (Published V)) : Prop :=
  published.Pairwise fun a b => S.key a = S.key b → S.version a < S.version b

instance (published : List (Published V)) : Decidable (S.Increasing published) :=
  inferInstanceAs (Decidable (List.Pairwise _ _))

def Highest (published : List (Published V)) (op : Published V) : Prop :=
  op ∈ published ∧ ∀ other ∈ published, S.key other = S.key op → S.version other ≤ S.version op

variable [DecidableEq B] [DecidableEq K] in
def replica (maxEntries : Int) (deliveries : List (SyncMsg B)) : LocalStore K V :=
  deliveries.foldl (handle S.codec S.replicaConfig) (newLocalStore S.storeConfig maxEntries)

variable [DecidableEq K] in
def Converged (s : LocalStore K V) (published : List (Published V)) : Prop :=
  ∀ op, S.Highest published op → s.items.lookup (S.storeKey (S.key op)) = op.result

/-- The store has no limit, or one that leaves room for all keys. -/
def Fits (maxEntries : Int) (published : List (Published V)) : Prop :=
  0 < maxEntries → ∃ keys : List K, (keys.length : Int) ≤ maxEntries ∧
    ∀ op ∈ published, S.storeKey (S.key op) ∈ keys

end Setting

def Setting.IsDelete (S : Setting B K V) (key : Int) (msg : SyncMsg B) : Prop :=
  msg.key = key ∧ msg.data = S.codec.empty

/-- A delivery of an upsert comes after all deletes of its key; for a delete, one follows every
upsert delivered. -/
def Setting.Settles (S : Setting B K V) (deliveries : List (SyncMsg B)) (op : Published V) : Prop :=
  match op with
  | .upsert _ _ => ∃ before msg rest, deliveries = before ++ msg :: rest ∧
      S.message op = some msg ∧ ∀ d ∈ rest, ¬ S.IsDelete (S.key op) d
  | .delete key _ => ∀ before msg rest, deliveries = before ++ msg :: rest → msg.key = key →
      msg.data ≠ S.codec.empty → ∃ d ∈ rest, S.IsDelete key d

section Deliveries

variable [DecidableEq B] {S : Setting B K V} {op : Published V} {msg : SyncMsg B} {r : Int}

/-- What a message does to the entry of a key. -/
def Setting.read (S : Setting B K V) (r : Int) (msg : SyncMsg B) : Option (ClearedRegister.Op V) :=
  if msg.key = r then
    match received S.codec S.topic msg with
    | none => none
    | some env =>
      if env.op = .delete then some .clear
      else
        match S.codec.unmarshal env.payload with
        | .error _ => none
        | .ok value => some (.put value)
  else none

variable {value : V} {now : Int}

theorem message_upsert (h : S.message (.upsert value now) = some msg) :
    msg.key = S.keyOf value ∧ msg.data ≠ S.codec.empty ∧
      (S.keyOf value ≠ 0 → ∃ env, received S.codec S.topic msg = some env ∧
        env.key = S.keyOf value ∧ env.op = .upsert ∧
        S.codec.unmarshal env.payload = .ok value) := by
  obtain ⟨raw, hraw, hvalue⟩ := S.unmarshal_marshal value
  simp only [Setting.message, publish, Setting.replicaConfig, hraw, replicatorPublish,
    if_neg S.topic_ne, Option.some.injEq] at h
  obtain rfl := h
  refine ⟨rfl, S.envelope_ne _, fun hkey => ?_⟩
  simp only [received, hkey, if_false, S.envelope_ne, S.unmarshal_envelope]
  exact ⟨_, rfl, by simp, by simp, hvalue⟩

variable {key version : Int}

omit [DecidableEq B] in
theorem message_delete (h : S.message (Published.delete key version : Published V) = some msg) :
    msg = { topic := S.topic, key, version, data := S.codec.empty } := by
  simp only [Setting.message, publishDelete, if_neg S.topic_ne, Option.some.injEq] at h
  exact h.symm

theorem read_upsert (h : S.message (.upsert value now) = some msg) (hkey : S.keyOf value ≠ 0) :
    S.read r msg = if S.keyOf value = r then some (.put value) else none := by
  obtain ⟨hmsg, -, henv⟩ := message_upsert h
  obtain ⟨env, hreceived, -, hop, hvalue⟩ := henv hkey
  unfold Setting.read
  rw [hmsg, hreceived]
  simp [hop, hvalue]

theorem read_delete (h : S.message (Published.delete key version : Published V) = some msg)
    (hkey : key ≠ 0) : S.read r msg = if key = r then some .clear else none := by
  obtain rfl := message_delete h
  simp [Setting.read, received, hkey]

variable [DecidableEq K] {s : LocalStore K V}

theorem handle_upsert (h : S.message (.upsert value now) = some msg) (hkey : S.keyOf value ≠ 0) :
    handle S.codec S.replicaConfig s msg = (set s value).2 := by
  obtain ⟨-, -, henv⟩ := message_upsert h
  obtain ⟨env, hreceived, henvKey, hop, hvalue⟩ := henv hkey
  have htopic : S.replicaConfig.topic = S.topic := rfl
  unfold handle
  rw [htopic, hreceived]
  simp only [applyReplica, henvKey, hkey, hop, hvalue, if_false, reduceCtorEq]

theorem handle_delete (h : S.message (Published.delete key version : Published V) = some msg)
    (hkey : key ≠ 0) : handle S.codec S.replicaConfig s msg = delete s (S.storeKey key) := by
  obtain rfl := message_delete h
  simp [handle, received, applyReplica, hkey, Setting.replicaConfig]

/-- The store has only keys of published operations, and room for them. -/
structure Sound (S : Setting B K V) (published : List (Published V)) (s : LocalStore K V) :
    Prop where
  cfg : s.cfg = S.storeConfig
  limit : s.order = none ∨ ∃ keys : List K, (keys.length : Int) ≤ s.maxEntries ∧
    (∀ op ∈ published, S.storeKey (S.key op) ∈ keys) ∧ s.items.keys ⊆ keys

variable {published : List (Published V)}

omit [DecidableEq B] [DecidableEq K] in
theorem keyOfValue_of_proper (hsound : Sound S published s)
    (hproper : S.Proper (.upsert value now)) :
    s.cfg.keyOfValue value = .ok (S.storeKey (S.keyOf value)) ∧
      (s.cfg.validateValue.bind fun validate => validate value) = none := by
  obtain ⟨-, hvalid, hvalue⟩ := hproper
  rw [hsound.cfg]
  exact ⟨if_pos hvalid, hvalue value rfl⟩

theorem keys_insert_subset {keys : List K} {key : K} (value : V) (hkeys : s.items.keys ⊆ keys)
    (hkey : key ∈ keys) : (s.items.insert key value).keys ⊆ keys := by
  rw [keys_insert]
  intro k hk
  rcases mem_cons.mp hk with rfl | hk
  · exact hkey
  · exact hkeys (mem_of_mem_erase hk)

omit [DecidableEq B] in
theorem within_insert {key : K} (value : V) (hsound : Sound S published s)
    (hop : op ∈ published) (hkey : key = S.storeKey (S.key op)) :
    Within (touchLocked { s with items := s.items.insert key value } key) := by
  rcases hsound.limit with hnone | ⟨keys, hlength, hpublished, hkeys⟩
  · exact .inl (by simp [touchLocked, hnone])
  refine .inr ?_
  have hsubset := keys_insert_subset value hkeys (hkey ▸ hpublished op hop)
  have hle := ((keys_nodup _).subperm hsubset).length_le
  show ((s.items.insert key value).keys.length : Int) ≤ s.maxEntries
  omega

theorem sound_handle (hsound : Sound S published s) (hop : op ∈ published)
    (hproper : S.Proper op) (hmsg : S.message op = some msg) :
    Sound S published (handle S.codec S.replicaConfig s msg) := by
  cases op with
  | upsert value =>
    obtain ⟨hkey, hvalue⟩ := keyOfValue_of_proper hsound hproper
    have hwithin := within_insert value hsound hop rfl
    have hitems := set_of_accepted hvalue hkey hwithin
    obtain ⟨hcfg, hmax, horder⟩ := set_frame value (by
      intro key hkey'
      obtain rfl := Except.ok.inj (hkey.symm.trans hkey')
      exact hwithin)
    rw [handle_upsert hmsg hproper.1]
    refine ⟨hcfg.trans hsound.cfg, hsound.limit.imp horder.mpr ?_⟩
    rintro ⟨keys, hlength, hpublished, hkeys⟩
    refine ⟨keys, hmax ▸ hlength, hpublished, ?_⟩
    rw [hitems]
    split
    · exact hkeys
    · exact keys_insert_subset value hkeys (hpublished _ hop)
  | delete =>
    rw [handle_delete hmsg hproper.1]
    unfold LocalCache.delete
    split
    · exact hsound
    refine ⟨hsound.cfg, hsound.limit.imp (by simp +contextual) ?_⟩
    rintro ⟨keys, hlength, hpublished, hkeys⟩
    refine ⟨keys, hlength, hpublished, ?_⟩
    rw [keys_erase]
    exact fun k hk => hkeys (mem_of_mem_erase hk)

theorem lookup_handle (hsound : Sound S published s) (hop : op ∈ published)
    (hproper : S.Proper op) (hmsg : S.message op = some msg) (r : Int) :
    (handle S.codec S.replicaConfig s msg).items.lookup (S.storeKey r) =
      (S.read r msg).elim (s.items.lookup (S.storeKey r))
        (apply S.versionOf (s.items.lookup (S.storeKey r))) := by
  cases op with
  | upsert value =>
    obtain ⟨hkey, hvalue⟩ := keyOfValue_of_proper hsound hproper
    rw [handle_upsert hmsg hproper.1, read_upsert hmsg hproper.1,
      set_of_accepted hvalue hkey (within_insert value hsound hop rfl), hsound.cfg]
    by_cases hr : S.keyOf value = r
    · subst hr
      cases hold : s.items.lookup (S.storeKey (S.keyOf value)) with
      | none => simp [apply]
      | some old =>
        by_cases hlt : S.versionOf value < S.versionOf old
        · simp [StoreConfig.isStale, Setting.storeConfig, versionStale, apply, hlt, hold]
        · simp [StoreConfig.isStale, Setting.storeConfig, versionStale, apply, hlt]
    · have hne : S.storeKey r ≠ S.storeKey (S.keyOf value) :=
        fun h => hr (S.storeKey_injective h).symm
      split
      · rfl
      · exact lookup_insert_ne hne
  | delete key =>
    obtain ⟨hkey, hvalid, -⟩ := hproper
    have hvalid : S.storeConfig.validKey (S.storeKey key) = true := hvalid
    rw [handle_delete hmsg hkey, read_delete hmsg hkey, LocalCache.delete, hsound.cfg,
      if_neg (by simpa using hvalid)]
    rcases eq_or_ne key r with rfl | hr
    · rw [if_pos rfl]
      exact lookup_erase ..
    · rw [if_neg hr]
      exact lookup_erase_ne fun h => hr (S.storeKey_injective h).symm

theorem lookup_replica (hproper : ∀ op ∈ published, S.Proper op)
    (hdelivered : ∀ msg ∈ deliveries, ∃ op ∈ published, S.message op = some msg)
    (hfits : S.Fits maxEntries published) :
    Sound S published (S.replica maxEntries deliveries) ∧
      ∀ r, (S.replica maxEntries deliveries).items.lookup (S.storeKey r) =
        after S.versionOf (S.read r) deliveries := by
  induction deliveries using reverseRecOn with
  | nil =>
    refine ⟨⟨?_, ?_⟩, fun r => ?_⟩
    · simp only [Setting.replica, foldl_nil, newLocalStore]
      split <;> rfl
    · simp only [Setting.replica, foldl_nil, newLocalStore]
      split_ifs with hpos
      · obtain ⟨keys, hlength, hkeys⟩ := hfits hpos
        exact .inr ⟨keys, hlength, hkeys, nil_subset _⟩
      · exact .inl rfl
    · simp only [Setting.replica, foldl_nil, newLocalStore]
      split <;> rfl
  | append_singleton deliveries msg ih =>
    obtain ⟨hsound, hlookup⟩ := ih fun m hm => hdelivered m (by simp [hm])
    obtain ⟨op, hop, hmsg⟩ := hdelivered msg (by simp)
    have hsnoc : S.replica maxEntries (deliveries ++ [msg]) =
        handle S.codec S.replicaConfig (S.replica maxEntries deliveries) msg := by
      simp [Setting.replica]
    rw [hsnoc]
    refine ⟨sound_handle hsound hop (hproper op hop) hmsg, fun r => ?_⟩
    rw [lookup_handle hsound hop (hproper op hop) hmsg r, hlookup r, after_snoc]

end Deliveries

section Convergence

variable [DecidableEq B] {S : Setting B K V} {published : List (Published V)}
  {deliveries : List (SyncMsg B)}
  {op other : Published V} {msg : SyncMsg B}

omit [DecidableEq B] in
theorem eq_of_version (hincreasing : S.Increasing published) (hop : op ∈ published)
    (hother : other ∈ published) (hkey : S.key op = S.key other)
    (hversion : S.version op = S.version other) : op = other := by
  by_contra hne
  have hpairs : published.Pairwise fun a b => S.key a = S.key b → S.version a ≠ S.version b :=
    hincreasing.imp fun h hkey => (h hkey).ne
  have hsymm : Std.Symm fun a b : Published V => S.key a = S.key b → S.version a ≠ S.version b :=
    ⟨fun a b h hkey hversion => h hkey.symm hversion.symm⟩
  exact hpairs.forall hop hother hne hkey hversion

variable {r : Int}

theorem upsert_of_read (hproper : S.Proper op) (hmsg : S.message op = some msg)
    (hread : S.read r msg = some (.put value)) :
    (∃ now, op = .upsert value now) ∧ S.key op = r := by
  cases op with
  | upsert _ now =>
    rw [read_upsert hmsg hproper.1] at hread
    split_ifs at hread with hkey
    cases hread
    exact ⟨⟨now, rfl⟩, hkey⟩
  | delete =>
    rw [read_delete hmsg hproper.1] at hread
    split at hread
    · cases hread
    · cases hread

theorem isDelete_iff_read (hproper : S.Proper op) (hmsg : S.message op = some msg) :
    S.IsDelete r msg ↔ S.read r msg = some .clear := by
  cases op with
  | upsert =>
    rw [read_upsert hmsg hproper.1]
    refine ⟨fun h => absurd h.2 (message_upsert hmsg).2.1, fun h => ?_⟩
    split at h
    · cases h
    · cases h
  | delete =>
    rw [read_delete hmsg hproper.1]
    obtain rfl := message_delete hmsg
    simp [Setting.IsDelete]

section Settling

variable (hproper : ∀ op ∈ published, S.Proper op)
  (hdelivered : ∀ msg ∈ deliveries, ∃ op ∈ published, S.message op = some msg)

include hproper hdelivered

theorem no_delete_iff (hdeliveries : deliveries = before ++ msg :: rest) :
    (∀ d ∈ rest, ¬ S.IsDelete r d) ↔ ∀ d ∈ rest, S.read r d ≠ some .clear := by
  refine forall₂_congr fun d hd => ?_
  obtain ⟨op, hop, hmsg⟩ := hdelivered d (by simp [hdeliveries, hd])
  rw [isDelete_iff_read (hproper op hop) hmsg]

theorem settles_upsert_iff (hincreasing : S.Increasing published)
    (hop : Published.upsert value now ∈ published) :
    S.Settles deliveries (.upsert value now) ↔
      ClearedRegister.PutSince (S.read (S.keyOf value)) deliveries value := by
  constructor
  · rintro ⟨before, msg, rest, hdeliveries, hmsg, hrest⟩
    refine ⟨before, msg, rest, hdeliveries, ?_, ?_⟩
    · rw [read_upsert hmsg (hproper _ hop).1, if_pos rfl]
    · exact (no_delete_iff hproper hdelivered hdeliveries).mp hrest
  rintro ⟨before, msg, rest, hdeliveries, hread, hrest⟩
  obtain ⟨op', hop', hmsg⟩ := hdelivered msg (by simp [hdeliveries])
  obtain ⟨⟨now', rfl⟩, hkey⟩ := upsert_of_read (hproper op' hop') hmsg hread
  obtain hsame := eq_of_version hincreasing hop' hop hkey rfl
  refine ⟨before, msg, rest, hdeliveries, hsame ▸ hmsg, ?_⟩
  exact (no_delete_iff hproper hdelivered hdeliveries).mpr hrest

theorem settles_delete_iff :
    S.Settles deliveries (.delete key version) ↔
      ∀ value, ¬ ClearedRegister.PutSince (S.read key) deliveries value := by
  constructor
  · rintro hsettles value ⟨before, msg, rest, hdeliveries, hread, hrest⟩
    obtain ⟨op', hop', hmsg⟩ := hdelivered msg (by simp [hdeliveries])
    obtain ⟨⟨now, rfl⟩, hkey⟩ := upsert_of_read (hproper op' hop') hmsg hread
    obtain ⟨hmsgKey, hdata, -⟩ := message_upsert hmsg
    obtain ⟨d, hd, hdelete⟩ := hsettles before msg rest hdeliveries (hmsgKey.trans hkey) hdata
    exact (no_delete_iff hproper hdelivered hdeliveries).mpr hrest d hd hdelete
  intro hnone before msg rest hdeliveries hkey hdata
  obtain ⟨op', hop', hmsg⟩ := hdelivered msg (by simp [hdeliveries])
  by_contra hno
  cases op' with
  | upsert value =>
    refine hnone value ⟨before, msg, rest, hdeliveries, ?_, ?_⟩
    · rw [read_upsert hmsg (hproper _ hop').1, if_pos ((message_upsert hmsg).1.symm.trans hkey)]
    · apply (no_delete_iff hproper hdelivered hdeliveries).mp
      exact fun d hd hdelete => hno ⟨d, hd, hdelete⟩
  | delete =>
    obtain rfl := message_delete hmsg
    exact hdata rfl

end Settling

end Convergence

variable [DecidableEq B] [DecidableEq K] in
/-- The replica has what the highest operation of each key says exactly if the deletes were
delivered in time. -/
theorem deliveries_converge (S : Setting B K V) (maxEntries : Int) (published : List (Published V))
    (deliveries : List (SyncMsg B)) (hproper : ∀ op ∈ published, S.Proper op)
    (hincreasing : S.Increasing published)
    (hdelivered : ∀ msg ∈ deliveries, ∃ op ∈ published, S.message op = some msg)
    (hfits : S.Fits maxEntries published) :
    S.Converged (S.replica maxEntries deliveries) published ↔
      ∀ op, S.Highest published op → S.Settles deliveries op := by
  obtain ⟨-, hlookup⟩ := lookup_replica hproper hdelivered hfits
  refine forall₂_congr fun op hhighest => ?_
  rw [hlookup]
  cases op with
  | upsert =>
    rw [settles_upsert_iff hproper hdelivered hincreasing hhighest.1]
    apply after_eq_some_iff
    intro msg hmsg other hread
    obtain ⟨op', hop', hmsg'⟩ := hdelivered msg hmsg
    obtain ⟨⟨now', rfl⟩, hkey⟩ := upsert_of_read (hproper op' hop') hmsg' hread
    refine ⟨hhighest.2 _ hop' hkey, fun hversion => ?_⟩
    cases eq_of_version hincreasing hop' hhighest.1 hkey hversion
    rfl
  | delete key =>
    rw [settles_delete_iff hproper hdelivered]
    exact (after_spec S.versionOf (S.read key) deliveries).1

section Example

/-- A JSON whose texts are the terms they were made of. -/
inductive Raw where
  | empty
  | number (n : Nat)
  | envelope (topic : String) (key version : Int) (op : Op) (payload : Raw) (updatedAt : Int)
deriving DecidableEq

def rawCodec : Codec Raw Nat where
  empty := .empty
  marshal n := .ok (.number n)
  unmarshal
    | .number n => .ok n
    | _ => .error "not a number"
  marshalEnvelope env := .envelope env.topic env.key env.version env.op env.payload env.updatedAt
  unmarshalEnvelope
    | .envelope topic key version op payload updatedAt =>
      .ok ⟨topic, key, version, op, payload, updatedAt⟩
    | _ => .error "not an envelope"

/-- Numbers under one key, each its own version. -/
def numbers : Setting Raw Int Nat where
  codec := rawCodec
  topic := "numbers"
  keyOf _ := 7
  versionOf n := n
  updatedAtOf := none
  storeKey := id
  validateKey := none
  validateValue := none
  topic_ne := by decide
  storeKey_injective := Function.injective_id
  unmarshal_marshal n := ⟨.number n, rfl, rfl⟩
  unmarshal_envelope _ := rfl
  envelope_ne _ := nofun

theorem proper_numbers (h : numbers.key op ≠ 0) : numbers.Proper op := ⟨h, rfl, fun _ _ => rfl⟩

def replaced : List (Published Nat) := [.upsert 1 0, .delete 7 2, .upsert 3 0]

def upsertMsg (n : Nat) : SyncMsg Raw :=
  ⟨"numbers", 7, n, .envelope "numbers" 7 n .upsert (.number n) 0⟩

def deleteMsg (version : Int) : SyncMsg Raw := ⟨"numbers", 7, version, .empty⟩

theorem highest_replaced (h : numbers.Highest replaced op) : op = .upsert 3 0 := by
  obtain ⟨hop, hhighest⟩ := h
  have hversion := hhighest (.upsert 3 0) (by decide)
  simp only [replaced, mem_cons, not_mem_nil, or_false] at hop
  rcases hop with rfl | rfl | rfl
  · exact absurd (hversion rfl) (by decide)
  · exact absurd (hversion rfl) (by decide)
  · rfl

def reordered : List (SyncMsg Raw) := [deleteMsg 2, upsertMsg 3, upsertMsg 1]

/-- The delete is delivered after the upsert that was published after it. -/
def late : List (SyncMsg Raw) := [upsertMsg 1, upsertMsg 3, deleteMsg 2]

theorem proper_replaced : ∀ op ∈ replaced, numbers.Proper op :=
  fun op hop => proper_numbers ((by decide : ∀ op ∈ replaced, numbers.key op ≠ 0) op hop)

theorem deliveries_converge_three :
    numbers.Converged (numbers.replica 0 reordered) replaced ∧
      ∀ op, numbers.Highest replaced op → numbers.Settles reordered op := by
  have hconverged : numbers.Converged (numbers.replica 0 reordered) replaced := by
    intro op hhighest
    obtain rfl := highest_replaced hhighest
    decide
  refine ⟨hconverged, ?_⟩
  exact (deliveries_converge numbers 0 replaced reordered proper_replaced (by decide) (by decide)
    (fun h => absurd h (by decide))).mp hconverged

/-- A late delete takes a later value away, and a late upsert brings a deleted one back. -/
theorem late_delivery_diverges :
    (∀ op ∈ replaced, numbers.Proper op) ∧ numbers.Increasing replaced ∧
      (∀ msg ∈ late, ∃ op ∈ replaced, numbers.message op = some msg) ∧
      (∀ op ∈ replaced, ∃ msg ∈ late, numbers.message op = some msg) ∧
      numbers.Fits 0 replaced ∧ ¬ numbers.Converged (numbers.replica 0 late) replaced ∧
      (numbers.replica 0 [deleteMsg 2, upsertMsg 1]).items.lookup 7 = some 1 := by
  refine ⟨proper_replaced, by decide, by decide, by decide, fun h => absurd h (by decide), ?_,
    by decide⟩
  intro hconverged
  have hhighest : numbers.Highest replaced (.upsert 3 0) := ⟨by decide, by decide⟩
  exact absurd (hconverged _ hhighest) (by decide)

end Example

end CubeCore.ReplicaDeliveries
