import CubeCore.Datagrams
import CubeCore.TransitionSystem
import Mathlib.Data.Finset.Card
import Mathlib.Data.List.GetD

namespace CubeCore.Reassembly

open SortedDiff WireFormat ReplicationSnapshot Datagrams List AList Option

structure AssemblyKey where
  session : UInt64
  roomID : UInt64
  epoch : UInt32
  tick : UInt32
  sequence : UInt32
deriving DecidableEq

/-- An empty payload is stored as nil, which also stands for a chunk that is missing. -/
structure FrameAssembly where
  header : DatagramHeader
  created : Int
  chunks : List (List UInt8)
  received : Nat
  total : Nat
deriving DecidableEq

abbrev Inflight := AList fun _ : AssemblyKey => FrameAssembly

structure Reassembler where
  limits : Limits
  ttl : Int
  inflight : Inflight

def newReassembler (limits : Limits) (ttl : Int) : Reassembler where
  limits := normalizeLimits limits
  ttl := orDefault ttl 2000000000
  inflight := ∅

structure PushResult where
  payload : List UInt8
  complete : Bool
  header : DatagramHeader
  err : Option ReplicationError
deriving DecidableEq

def failed (header : DatagramHeader) (err : ReplicationError) : PushResult :=
  ⟨[], false, header, some err⟩

def waiting (header : DatagramHeader) : PushResult :=
  ⟨[], false, header, none⟩

def keyOf (session : UInt64) (header : DatagramHeader) : AssemblyKey where
  session := session
  roomID := header.roomID
  epoch := header.epoch
  tick := header.tick
  sequence := header.sequence

variable (test : FrameAssembly → Bool) (m : Inflight)

/-- The entries of a map that pass a test. -/
def sweep : Inflight where
  entries := m.entries.filter fun entry => test entry.2
  nodupKeys := List.NodupKeys.sublist List.filter_sublist m.nodupKeys

def live (ttl now : Int) (assembly : FrameAssembly) : Bool :=
  now - assembly.created < ttl

def expireLocked (r : Reassembler) (now : Int) : Reassembler :=
  { r with inflight := sweep (live r.ttl now) r.inflight }

def storeChunk (assembly : FrameAssembly) (index : Nat) (payload : List UInt8) : FrameAssembly :=
  { assembly with
    chunks := assembly.chunks.set index payload
    received := assembly.received + 1
    total := assembly.total + payload.length }

/-- A chunk is put into its assembly. The assembly that stays in flight is returned. -/
def addChunk (limits : Limits) (header : DatagramHeader) (payload : List UInt8)
    (assembly : FrameAssembly) : PushResult × Option FrameAssembly :=
  let index := header.chunkIndex.toNat
  let existing := assembly.chunks.getD index []
  if existing ≠ [] then
    if existing ≠ payload then (failed header .invalidDatagram, none)
    else (waiting header, some assembly)
  else if limits.maxFrameBytes < (assembly.total + payload.length : Nat) then
    (failed header .frameTooLarge, none)
  else
    let assembly := storeChunk assembly index payload
    if assembly.received ≠ assembly.chunks.length then (waiting header, some assembly)
    else (⟨assembly.chunks.flatten, true, header, none⟩, none)

/-- The part of `push` about one key. `full`: no new assembly may be made. -/
def receiveChunk (limits : Limits) (full : Bool) (now : Int) (header : DatagramHeader)
    (payload : List UInt8) : Option FrameAssembly → PushResult × Option FrameAssembly
  | none =>
    if full then (failed header .reassemblyCapacity, none)
    else
      addChunk limits header payload
        { header
          created := now
          chunks := List.replicate header.chunkCount.toNat []
          received := 0
          total := 0 }
  | some assembly =>
    if assembly.header.chunkCount ≠ header.chunkCount ∨
        assembly.header.baseTick ≠ header.baseTick ∨
        assembly.header.flags ≠ header.flags then
      (failed header .invalidDatagram, none)
    else addChunk limits header payload assembly

/-- A chunk of a frame that comes to a reassembler whose old assemblies have expired. -/
def receive (r : Reassembler) (session : UInt64) (header : DatagramHeader)
    (payload : List UInt8) (now : Int) : PushResult × Option FrameAssembly :=
  receiveChunk r.limits (decide (r.limits.maxInflightFrames ≤ r.inflight.entries.length)) now
    header payload (r.inflight.lookup (keyOf session header))

variable (crc : List UInt8 → UInt32)

/-- `push`, with the time that is used for `now`. -/
def push (r : Reassembler) (session : UInt64) (packet : List UInt8) (now : Int) :
    PushResult × Reassembler :=
  match decodeDatagram crc packet r.limits with
  | .error e => (failed .zero e, r)
  | .ok (header, payload) =>
    if header.chunkCount = 1 then (⟨payload, true, header, none⟩, r)
    else
      let r := expireLocked r now
      let out := receive r session header payload now
      (out.1, { r with inflight := write r.inflight (keyOf session header) out.2 })

def pushFor (r : Reassembler) (session : UInt64) (packet : List UInt8) (now : Int) :
    PushResult × Reassembler :=
  if session = 0 then (failed .zero .sessionNotFound, r) else push crc r session packet now

/-- `Expire` and the number of frames it removed. -/
def expire (r : Reassembler) (now : Int) : Nat × Reassembler :=
  let swept := expireLocked r now
  (r.inflight.entries.length - swept.inflight.entries.length, swept)

theorem lookup_sweep (key : AssemblyKey) :
    (sweep test m).lookup key = (m.lookup key).filter test := by
  ext assembly
  rw [filter_eq_some_iff, ← mem_def, ← mem_def, mem_lookup_iff, mem_lookup_iff]
  exact mem_filter

theorem length_sweep_le : (sweep test m).entries.length ≤ m.entries.length :=
  length_filter_le _ _

theorem length_entries : m.entries.length = m.keys.length := (length_map _).symm

theorem length_write_le (key : AssemblyKey) (o : Option FrameAssembly) :
    (write m key o).entries.length ≤ m.entries.length + 1 ∧
      (o = none ∨ m.lookup key ≠ none → (write m key o).entries.length ≤ m.entries.length) := by
  simp only [length_entries]
  have herase : (m.keys.erase key).length ≤ m.keys.length := length_erase_le
  cases o with
  | none =>
    simp only [write, keys_erase]
    exact ⟨by omega, fun _ => herase⟩
  | some =>
    simp only [write, keys_insert, length_cons]
    refine ⟨by omega, fun h => ?_⟩
    have hmem : key ∈ m.keys := by
      rcases h with h | h
      · cases h
      · exact mem_keys.mp (lookup_isSome.mp (isSome_iff_ne_none.mpr h))
    have hpos := length_pos_of_mem hmem
    rw [length_erase_of_mem hmem]
    omega

variable {crc} {limits : Limits} {header : DatagramHeader} {payload packet : List UInt8}

inductive Added (header : DatagramHeader) (payload : List UInt8) (assembly : FrameAssembly) :
    PushResult × Option FrameAssembly → Prop
  | refused : Added header payload assembly (failed header err, none)
  | again : assembly.chunks.getD header.chunkIndex.toNat [] ≠ [] →
      assembly.chunks.getD header.chunkIndex.toNat [] = payload →
        Added header payload assembly (waiting header, some assembly)
  | stored : assembly.chunks.getD header.chunkIndex.toNat [] = [] →
      assembly.received + 1 ≠ assembly.chunks.length →
        Added header payload assembly
          (waiting header, some (storeChunk assembly header.chunkIndex.toNat payload))
  | completed : assembly.chunks.getD header.chunkIndex.toNat [] = [] →
      assembly.received + 1 = assembly.chunks.length →
        Added header payload assembly
          (⟨(storeChunk assembly header.chunkIndex.toNat payload).chunks.flatten, true, header,
            none⟩, none)

theorem added_addChunk (limits : Limits) (header : DatagramHeader) (payload : List UInt8)
    (assembly : FrameAssembly) :
    Added header payload assembly (addChunk limits header payload assembly) := by
  simp only [addChunk]
  split
  · rename_i hexisting
    split
    · exact .refused
    · rename_i hequal
      exact .again hexisting (not_not.mp hequal)
  rename_i hexisting
  have hmissing := not_not.mp hexisting
  split
  · exact .refused
  simp only [storeChunk, length_set]
  split
  · rename_i hmore
    exact .stored hmissing hmore
  · rename_i hlast
    exact .completed hmissing (not_not.mp hlast)

theorem decodeDatagram_index (h : decodeDatagram crc packet limits = .ok (header, payload)) :
    header.chunkIndex.toNat < header.chunkCount.toNat := by
  simp only [decodeDatagram, Checked.bind_eq_ok, Checked.exists_unit, Checked.rejectIf_eq_ok,
    Checked.pure_eq_ok, Prod.mk.injEq] at h
  obtain ⟨-, hvalid, -, rfl, -⟩ := h
  push Not at hvalid
  exact UInt16.lt_iff_toNat_lt.mp (UInt16.not_le.mp hvalid.2.2.2.2.2.2.2.1)

/-- With the chunk indices that came for a key since its assembly was made. -/
structure Traced where
  r : Reassembler
  arrived : AssemblyKey → List Nat

inductive Label where
  | push (packet : List UInt8) (now : Int)
  | pushFor (session : UInt64) (packet : List UInt8) (now : Int)
  | expire (now : Int)

variable (crc) in
def arrive (s : Traced) (session : UInt64) (packet : List UInt8) (now : Int) :
    AssemblyKey → List Nat :=
  match decodeDatagram crc packet s.r.limits with
  | .error _ => s.arrived
  | .ok (header, _) =>
    if header.chunkCount = 1 then s.arrived
    else
      let key := keyOf session header
      let before :=
        if ((expireLocked s.r now).inflight.lookup key).isSome then s.arrived key else []
      Function.update s.arrived key (before ++ [header.chunkIndex.toNat])

variable (crc) in
def next (s : Traced) : Label → Option Traced
  | .push packet now => some ⟨(push crc s.r 0 packet now).2, arrive crc s 0 packet now⟩
  | .pushFor session packet now =>
    if session = 0 then some ⟨(pushFor crc s.r session packet now).2, s.arrived⟩
    else some ⟨(pushFor crc s.r session packet now).2, arrive crc s session packet now⟩
  | .expire now => some { s with r := (expire s.r now).2 }

def initial (limits : Limits) (ttl : Int) (s : Traced) : Prop :=
  s = ⟨newReassembler limits ttl, fun _ => []⟩

variable (crc) in
/-- No chunk that came with an empty payload comes again. -/
def FreshChunk (s : Traced) (session : UInt64) (packet : List UInt8) (now : Int) : Prop :=
  ∀ header payload, decodeDatagram crc packet s.r.limits = .ok (header, payload) →
    ∀ assembly, (expireLocked s.r now).inflight.lookup (keyOf session header) = some assembly →
      header.chunkIndex.toNat ∈ s.arrived (keyOf session header) →
        assembly.chunks.getD header.chunkIndex.toNat [] ≠ []

variable (crc) in
def freshChunks (s : Traced) : Label → Prop
  | .push packet now => FreshChunk crc s 0 packet now
  | .pushFor session packet now => session ≠ 0 → FreshChunk crc s session packet now
  | .expire _ => True

/-- An assembly agrees with the chunk indices that arrived for it. -/
structure Accounted (arrived : List Nat) (assembly : FrameAssembly) : Prop where
  received : assembly.received = arrived.toFinset.card
  total : assembly.total = (assembly.chunks.map List.length).sum
  length : assembly.chunks.length = assembly.header.chunkCount.toNat
  stored : ∀ i, assembly.chunks.getD i [] ≠ [] → i ∈ arrived
  bounded : ∀ i ∈ arrived, i < assembly.chunks.length

theorem accounted_new (header : DatagramHeader) (now : Int) : Accounted []
      { header
        created := now
        chunks := replicate header.chunkCount.toNat []
        received := 0
        total := 0 } where
  received := rfl
  total := by simp
  length := by simp
  stored i h := absurd (getElem?_getD_replicate_default_eq _ _ _) h
  bounded := nofun

variable {i : Nat}

theorem sum_length_set {chunks : List (List UInt8)} (hi : i < chunks.length)
    (hmissing : chunks.getD i [] = []) :
    ((chunks.set i payload).map length).sum = (chunks.map length).sum + payload.length := by
  induction chunks generalizing i with
  | nil => cases hi
  | cons first rest ih =>
    cases i with
    | zero =>
      have hfirst : first = [] := hmissing
      simp [hfirst, Nat.add_comm]
    | succ =>
      have hrest := ih (Nat.lt_of_succ_lt_succ hi) hmissing
      simp only [set_cons_succ, map_cons, sum_cons, hrest]
      omega

variable {arrived : List Nat} {assembly : FrameAssembly}

theorem Accounted.store (h : Accounted arrived assembly) (hi : i < assembly.chunks.length)
    (hnew : i ∉ arrived) (hmissing : assembly.chunks.getD i [] = []) (payload : List UInt8) :
    Accounted (arrived ++ [i]) (storeChunk assembly i payload) where
  received := by
    have hcard : (arrived ++ [i]).toFinset = insert i arrived.toFinset := by
      ext j
      simp
    rw [hcard, Finset.card_insert_of_notMem (by simpa using hnew), ← h.received]
    rfl
  total := by
    simp only [storeChunk]
    rw [sum_length_set hi hmissing, h.total]
  length := by simpa [storeChunk] using h.length
  stored j hj := by
    by_cases hij : j = i
    · simp [hij]
    have hsame : (assembly.chunks.set i payload).getD j [] = assembly.chunks.getD j [] := by
      simp [getD_eq_getElem?_getD, getElem?_set_ne (Ne.symm hij)]
    simp only [storeChunk, hsame] at hj
    exact mem_append_left _ (h.stored j hj)
  bounded := by
    simp only [storeChunk, length_set, forall_mem_append, forall_mem_singleton]
    exact ⟨h.bounded, hi⟩

theorem Accounted.all_arrived (h : Accounted arrived assembly)
    (hall : assembly.received = assembly.chunks.length) (hi : i < assembly.chunks.length) :
    i ∈ arrived := by
  have hsubset : arrived.toFinset ⊆ Finset.range assembly.chunks.length := by
    intro j hj
    exact Finset.mem_range.mpr (h.bounded j (List.mem_toFinset.mp hj))
  have heq : arrived.toFinset = Finset.range assembly.chunks.length := by
    refine Finset.eq_of_subset_of_card_le hsubset ?_
    rw [Finset.card_range, ← hall, h.received]
  rw [← List.mem_toFinset, heq]
  exact Finset.mem_range.mpr hi

theorem Accounted.added (h : Accounted arrived assembly)
    (hindex : header.chunkIndex.toNat < assembly.chunks.length)
    (hfresh : header.chunkIndex.toNat ∈ arrived →
      assembly.chunks.getD header.chunkIndex.toNat [] ≠ [])
    (hadded : Added header payload assembly out) :
    (∀ a, out.2 = some a → Accounted (arrived ++ [header.chunkIndex.toNat]) a) ∧
      (out.1.complete = true →
        ∀ i < assembly.chunks.length, i ∈ arrived ++ [header.chunkIndex.toNat]) := by
  cases hadded with
  | refused => exact ⟨nofun, nofun⟩
  | again hexisting =>
    refine ⟨?_, nofun⟩
    rintro a ⟨⟩
    have hmem := h.stored _ hexisting
    refine ⟨?_, h.total, h.length, ?_, ?_⟩
    · rw [h.received]
      congr 1
      ext j
      simp only [List.mem_toFinset, mem_append, mem_singleton]
      exact ⟨.inl, fun hj => hj.elim id fun hj => hj ▸ hmem⟩
    · exact fun i hi => mem_append_left _ (h.stored i hi)
    · rw [forall_mem_append, forall_mem_singleton]
      exact ⟨h.bounded, hindex⟩
  | stored hmissing =>
    refine ⟨?_, nofun⟩
    rintro a ⟨⟩
    exact h.store hindex (fun hmem => hfresh hmem hmissing) hmissing payload
  | completed hmissing hlast =>
    refine ⟨nofun, fun _ i hi => ?_⟩
    have hstored := h.store hindex (fun hmem => hfresh hmem hmissing) hmissing payload
    have hlength : (storeChunk assembly header.chunkIndex.toNat payload).chunks.length =
        assembly.chunks.length := by simp [storeChunk]
    refine hstored.all_arrived ?_ (hlength ▸ hi)
    rw [hlength, ← hlast]
    rfl

theorem receiveChunk_accounted (hold : ∀ a, old = some a → Accounted arrived a)
    (hindex : header.chunkIndex.toNat < header.chunkCount.toNat)
    (hfresh : ∀ a, old = some a → header.chunkIndex.toNat ∈ arrived →
      a.chunks.getD header.chunkIndex.toNat [] ≠ []) :
    (∀ a, (receiveChunk limits full now header payload old).2 = some a →
      Accounted ((if old.isSome then arrived else []) ++ [header.chunkIndex.toNat]) a) ∧
      ((receiveChunk limits full now header payload old).1.complete = true →
        ∀ i < header.chunkCount.toNat,
          i ∈ (if old.isSome then arrived else []) ++ [header.chunkIndex.toNat]) := by
  cases old with
  | none =>
    simp only [receiveChunk, isSome_none, Bool.false_eq_true, if_false]
    split
    · exact ⟨nofun, nofun⟩
    have hnew := accounted_new header now
    have hadded := hnew.added (by simpa using hindex) nofun
      (added_addChunk limits header payload _)
    simpa using hadded
  | some assembly =>
    simp only [receiveChunk, isSome_some, if_true]
    split_ifs with hmatch
    · exact ⟨nofun, nofun⟩
    push Not at hmatch
    have haccounted := hold assembly rfl
    have hlength : assembly.chunks.length = header.chunkCount.toNat := by
      rw [haccounted.length, hmatch.1]
    rw [← hlength] at hindex ⊢
    exact haccounted.added hindex (hfresh assembly rfl) (added_addChunk limits header payload _)

variable {r : Reassembler} {session : UInt64} {now : Int}

theorem push_eq (hdecode : decodeDatagram crc packet r.limits = .ok (header, payload))
    (hmulti : header.chunkCount ≠ 1) :
    push crc r session packet now =
      ((receive (expireLocked r now) session header payload now).1,
        { expireLocked r now with
          inflight := write (expireLocked r now).inflight (keyOf session header)
            (receive (expireLocked r now) session header payload now).2 }) := by
  simp only [push, hdecode, if_neg hmulti]

theorem push_inflight (hdecode : decodeDatagram crc packet r.limits = .ok (header, payload))
    (hmulti : header.chunkCount ≠ 1) :
    (push crc r session packet now).2.inflight =
      write (expireLocked r now).inflight (keyOf session header)
        (receive (expireLocked r now) session header payload now).2 := by
  rw [push_eq hdecode hmulti]

theorem push_config :
    (push crc r session packet now).2.limits = r.limits ∧
      (push crc r session packet now).2.ttl = r.ttl := by
  unfold push
  split
  · exact ⟨rfl, rfl⟩
  · split <;> exact ⟨rfl, rfl⟩

theorem push_of_other (h : ∀ header payload,
      decodeDatagram crc packet r.limits = .ok (header, payload) → header.chunkCount = 1) :
    (push crc r session packet now).2 = r := by
  unfold push
  split
  · rfl
  · rename_i header payload hdecode
    rw [if_pos (h header payload hdecode)]

structure Inv (limits : Limits) (s : Traced) : Prop where
  limits_eq : s.r.limits = normalizeLimits limits
  accounted : ∀ key a, s.r.inflight.lookup key = some a → Accounted (s.arrived key) a
  count : s.r.inflight.entries.length ≤ (normalizeLimits limits).maxInflightFrames

variable {s : Traced}

theorem inv_initial {ttl : Int} (h : initial limits ttl s) : Inv limits s := by
  obtain rfl := h
  refine ⟨rfl, fun key a ha => ?_, ?_⟩
  · simp [newReassembler] at ha
  · have hpos : 0 < (normalizeLimits limits).maxInflightFrames := orDefault_pos (by decide)
    exact le_of_lt hpos

theorem Inv.expired (h : Inv limits s) (now : Int) :
    Inv limits { s with r := expireLocked s.r now } where
  limits_eq := h.limits_eq
  accounted key a ha := by
    simp only [expireLocked, lookup_sweep, filter_eq_some_iff] at ha
    exact h.accounted key a ha.1
  count := by
    have hle := length_sweep_le (live s.r.ttl now) s.r.inflight
    have hcount := h.count
    simp only [expireLocked]
    omega

theorem inv_receive (h : Inv limits s) (hfresh : FreshChunk crc s session packet now)
    (hdecode : decodeDatagram crc packet s.r.limits = .ok (header, payload))
    (hmulti : header.chunkCount ≠ 1) :
    (∀ a, (receive (expireLocked s.r now) session header payload now).2 = some a →
      Accounted (arrive crc s session packet now (keyOf session header)) a) ∧
      ((receive (expireLocked s.r now) session header payload now).1.complete = true →
        ∀ i < header.chunkCount.toNat,
          i ∈ arrive crc s session packet now (keyOf session header)) := by
  have harrive : arrive crc s session packet now (keyOf session header) =
      (if ((expireLocked s.r now).inflight.lookup (keyOf session header)).isSome then
        s.arrived (keyOf session header) else []) ++ [header.chunkIndex.toNat] := by
    simp [arrive, hdecode, hmulti]
  rw [harrive]
  exact receiveChunk_accounted ((h.expired now).accounted (keyOf session header))
    (decodeDatagram_index hdecode) (hfresh header payload hdecode)

theorem length_write_receive {key : AssemblyKey} (hkey : key = keyOf session header)
    (hcount : r.inflight.entries.length ≤ r.limits.maxInflightFrames) :
    (write r.inflight key (receive r session header payload now).2).entries.length ≤
      r.limits.maxInflightFrames := by
  subst hkey
  obtain ⟨hgrow, hkeep⟩ := length_write_le r.inflight (keyOf session header)
    (receive r session header payload now).2
  cases hold : r.inflight.lookup (keyOf session header) with
  | some =>
    have hle := hkeep (.inr (by simp [hold]))
    omega
  | none =>
    by_cases hfull : r.limits.maxInflightFrames ≤ r.inflight.entries.length
    · have hnone : (receive r session header payload now).2 = none := by
        simp [receive, receiveChunk, hold, hfull]
      have hle := hkeep (.inl hnone)
      omega
    · omega

theorem inv_push (h : Inv limits s) (hfresh : FreshChunk crc s session packet now) :
    Inv limits ⟨(push crc s.r session packet now).2, arrive crc s session packet now⟩ := by
  by_cases hmulti : ∃ header payload,
      decodeDatagram crc packet s.r.limits = .ok (header, payload) ∧ header.chunkCount ≠ 1
  · obtain ⟨header, payload, hdecode, hcount⟩ := hmulti
    have hswept := h.expired now
    constructor
    · exact push_config.1.trans h.limits_eq
    · simp only [push_inflight hdecode hcount]
      intro key a ha
      by_cases hkey : key = keyOf session header
      · subst hkey
        rw [lookup_write] at ha
        exact (inv_receive h hfresh hdecode hcount).1 a ha
      have hframe : arrive crc s session packet now key = s.arrived key := by
        simp [arrive, hdecode, hcount, Function.update_of_ne hkey]
      rw [hframe]
      rw [lookup_write_ne hkey] at ha
      exact hswept.accounted key a ha
    · simp only [push_inflight hdecode hcount]
      have hlimits : (expireLocked s.r now).limits = normalizeLimits limits := h.limits_eq
      rw [← hlimits]
      exact length_write_receive rfl (hlimits ▸ hswept.count)
  · push Not at hmulti
    have harrive : arrive crc s session packet now = s.arrived := by
      unfold arrive
      split
      · rfl
      · rename_i header payload hdecode
        rw [if_pos (hmulti header payload hdecode)]
    rwa [push_of_other hmulti, harrive]

variable {l : Label}

theorem inv_next {s' : Traced} (h : Inv limits s) (hfresh : freshChunks crc s l)
    (hnext : next crc s l = some s') : Inv limits s' := by
  cases l with
  | push =>
    cases hnext
    exact inv_push h hfresh
  | pushFor =>
    simp only [next, pushFor] at hnext
    split_ifs at hnext with hsession
    · cases hnext
      exact h
    · cases hnext
      exact inv_push h (hfresh hsession)
  | expire now =>
    cases hnext
    exact h.expired now

open TransitionSystem in
/-- If no empty chunk comes again, the counters are right and a frame is complete only when all
chunks have arrived. -/
theorem reassembler_accounting {ttl : Int} {s : Traced}
    (h : Reach (next crc) (initial limits ttl) (freshChunks crc) s) :
    (∀ key a, s.r.inflight.lookup key = some a →
      a.received = (s.arrived key).toFinset.card ∧ a.total = (a.chunks.map List.length).sum) ∧
      s.r.inflight.entries.length ≤ (normalizeLimits limits).maxInflightFrames ∧
      ∀ session packet now header payload, FreshChunk crc s session packet now →
        decodeDatagram crc packet s.r.limits = .ok (header, payload) →
        header.chunkCount ≠ 1 → (push crc s.r session packet now).1.complete = true →
          ∀ i < header.chunkCount.toNat,
            i ∈ arrive crc s session packet now (keyOf session header) := by
  have hinv : Inv limits s := h.invariant (fun _ => inv_initial) fun _ _ _ => inv_next
  refine ⟨fun key a ha => ?_, hinv.count, ?_⟩
  · exact ⟨(hinv.accounted key a ha).received, (hinv.accounted key a ha).total⟩
  · intro session packet now header payload hfresh hdecode hmulti hcomplete
    rw [push_eq hdecode hmulti] at hcomplete
    exact (inv_receive hinv hfresh hdecode hmulti).2 hcomplete

/-- The first chunk of a frame of `count` chunks, with a checksum that is always zero. -/
def firstChunk (count : UInt16) (payload : List UInt8) : List UInt8 :=
  headerBytes
      { protocol := 1, flags := 0, roomID := 100, epoch := 1, tick := 7, baseTick := 6
        sequence := 3, chunkIndex := 0, chunkCount := count
        payloadLen := UInt16.ofNat payload.length, checksum := 0 } ++
    putBE 4 0 ++ payload

def roomKey : AssemblyKey := keyOf 0 (headerOf (firstChunk 3 []))

def freshTest (s : Traced) : Label → Bool
  | .push packet now =>
    match decodeDatagram (fun _ => 0) packet s.r.limits with
    | .error _ => true
    | .ok (header, _) =>
      ((expireLocked s.r now).inflight.lookup (keyOf 0 header)).all fun assembly =>
        decide (assembly.chunks.getD header.chunkIndex.toNat [] ≠ [])
  | _ => false

theorem freshChunks_of_test (h : freshTest s l = true) : freshChunks (fun _ => 0) s l := by
  cases l with
  | push =>
    intro header payload hdecode assembly hassembly _
    simpa [freshTest, hdecode, hassembly] using h
  | _ => cases h

open TransitionSystem in
theorem reassembler_accounting_repeated :
    ∃ s, Reach (next fun _ => 0) (initial defaultLimits 0) (freshChunks fun _ => 0) s ∧
      s.arrived roomKey = [0, 0] ∧ ∃ a, s.r.inflight.lookup roomKey = some a ∧
        a.received = (s.arrived roomKey).toFinset.card := by
  refine exists_reach_imp (exists_of_run rfl freshTest
    [.push (firstChunk 3 [5]) 10, .push (firstChunk 3 [5]) 20]
    (fun _ _ _ => freshChunks_of_test)
    (P := fun s => s.arrived roomKey = [0, 0] ∧ (s.r.inflight.lookup roomKey).isSome = true)
    (by decide +kernel)) ?_
  rintro s hreach ⟨harrived, hsome⟩
  obtain ⟨a, ha⟩ := Option.isSome_iff_exists.mp hsome
  exact ⟨harrived, a, ha, ((reassembler_accounting hreach).1 roomKey a ha).1⟩

open TransitionSystem in
/-- An empty chunk that comes three times completes a frame of three chunks. -/
theorem empty_chunk_counted_again :
    ∃ s, Reach (next fun _ => 0) (initial defaultLimits 0) anyStep s ∧
      (s.r.inflight.lookup roomKey).map FrameAssembly.received = some 2 ∧
      (s.arrived roomKey).toFinset.card = 1 ∧
      (push (fun _ => 0) s.r 0 (firstChunk 3 []) 30).1.complete = true ∧
      1 ∉ arrive (fun _ => 0) s 0 (firstChunk 3 []) 30 roomKey := by
  have hstart : Reach (next fun _ => 0) (initial defaultLimits 0) anyStep
      ⟨newReassembler defaultLimits 0, fun _ => []⟩ := .start rfl
  have hrun := (hstart.step (a := .push (firstChunk 3 []) 10) trivial rfl).step
    (a := .push (firstChunk 3 []) 20) trivial rfl
  exact ⟨_, hrun, by decide +kernel⟩

end CubeCore.Reassembly
