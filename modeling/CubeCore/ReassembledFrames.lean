import CubeCore.Reassembly
import Mathlib.Algebra.Order.BigOperators.Group.Finset

namespace CubeCore.ReassembledFrames

open SortedDiff ReplicationSnapshot SnapshotDelta Datagrams Reassembly List UInt16

/-- A call of `Push`, for which the session is zero, or of `PushFor`. -/
structure Call where
  session : UInt64
  packet : List UInt8
  now : Int
deriving DecidableEq

variable (crc : List UInt8 → UInt32)

def afterCalls (r : Reassembler) (calls : List Call) : Reassembler :=
  calls.foldl (fun r c => (push crc r c.session c.packet c.now).2) r

def Delivered (session : UInt64) (packets : List (List UInt8)) (calls : List Call) : Prop :=
  ∀ packet ∈ packets, ∃ c ∈ calls, c.session = session ∧ c.packet = packet

instance (session : UInt64) (packets : List (List UInt8)) (calls : List Call) :
    Decidable (Delivered session packets calls) :=
  inferInstanceAs (Decidable (∀ packet ∈ packets, ∃ c ∈ calls,
    c.session = session ∧ c.packet = packet))

def frameKey (session : UInt64) (frame : DeltaFrame) (sequence : UInt32) : AssemblyKey where
  session := session
  roomID := frame.roomID
  epoch := frame.epoch
  tick := frame.tick
  sequence := sequence

/-- The chunks that have come since the frame was last complete. -/
def collect (count : Nat) (there : Finset Nat) (index : Nat) : Finset Nat :=
  if insert index there = Finset.range count then ∅ else insert index there

theorem foldl_collect {count : Nat} {indices : List Nat} (hlt : ∀ i ∈ indices, i < count)
    (hmissing : ∃ i < count, i ∉ indices) : indices.foldl (collect count) ∅ = indices.toFinset := by
  induction indices using reverseRecOn with
  | nil => rfl
  | append_singleton indices index ih =>
    obtain ⟨i, hi, hnot⟩ := hmissing
    have hbefore := ih (fun j hj => hlt j (mem_append_left _ hj))
      ⟨i, hi, fun hmem => hnot (mem_append_left _ hmem)⟩
    have hinsert : insert index indices.toFinset = (indices ++ [index]).toFinset := by
      ext j
      simp
    have hne : (indices ++ [index]).toFinset ≠ Finset.range count := by
      intro heq
      exact hnot (mem_toFinset.mp (heq ▸ Finset.mem_range.mpr hi))
    rw [foldl_append, hbefore, foldl_cons, foldl_nil, collect, hinsert, if_neg hne]

/-- The chunks of an assembly that has those of `there`. -/
def chunksOf (encoded : List UInt8) (size count : Nat) (there : Finset Nat) : List (List UInt8) :=
  (List.range count).map fun i => if i ∈ there then chunk encoded size i else []

theorem chunksOf_set (encoded : List UInt8) (size count index : Nat) (there : Finset Nat) :
    (chunksOf encoded size count there).set index (chunk encoded size index) =
      chunksOf encoded size count (insert index there) := by
  apply ext_getElem
  · simp [chunksOf]
  intro j hj _
  rcases eq_or_ne index j with rfl | hij
  · simp [chunksOf]
  · simp [chunksOf, getElem_set_ne hij, Finset.mem_insert, Ne.symm hij]

variable {index : Nat} {there : Finset Nat}

/-- An assembly of the frame that has the chunks of `there`, made at the time `created`. -/
structure Holds (frame : DeltaFrame) (encoded : List UInt8) (size count : Nat)
    (there : Finset Nat) (assembly : FrameAssembly) : Prop where
  chunkCount : assembly.header.chunkCount = UInt16.ofNat count
  baseTick : assembly.header.baseTick = frame.baseTick
  flags : assembly.header.flags = if frame.kind = .full then datagramFlagFull else 0
  chunks : assembly.chunks = chunksOf encoded size count there
  received : assembly.received = there.card
  total : assembly.total = ∑ i ∈ there, (chunk encoded size i).length

/-- What is in flight of a frame of which the chunks of `there` have come. -/
inductive InFlight (frame : DeltaFrame) (encoded : List UInt8) (size count : Nat) :
    Finset Nat → Option FrameAssembly → Prop
  | none : InFlight frame encoded size count ∅ none
  | some {there : Finset Nat} {assembly : FrameAssembly} : there ⊆ Finset.range count →
      there ≠ Finset.range count → Holds frame encoded size count there assembly →
        InFlight frame encoded size count there (some assembly)

section Frame

variable {crc} {frame : DeltaFrame} {sequence : UInt32} {encoded : List UInt8}
  {limits : Limits} {packets : List (List UInt8)} {size : Nat} {session : UInt64}

variable (hcut : Cut crc frame sequence encoded limits packets size)

include hcut in
theorem sum_chunks :
    ∑ i ∈ Finset.range packets.length, (chunk encoded size i).length = encoded.length := by
  have hlength := congrArg length hcut.flatten
  rwa [length_flatten, map_map] at hlength

include hcut in
theorem chunks_complete :
    (chunksOf encoded size packets.length (Finset.range packets.length)).flatten = encoded := by
  have hall : chunksOf encoded size packets.length (Finset.range packets.length) =
      (range packets.length).map (chunk encoded size) := by
    refine map_congr_left fun i hi => ?_
    exact if_pos (Finset.mem_range.mpr (mem_range.mp hi))
  rw [hall, hcut.flatten]

include hcut in
theorem Holds.add (h : Holds frame encoded size packets.length there assembly)
    (hthere : there ⊆ Finset.range packets.length) (hne : there ≠ Finset.range packets.length)
    (hindex : index < packets.length) (header : DatagramHeader)
    (hheader : header.chunkIndex.toNat = index) :
    let out := addChunk (normalizeLimits limits) header (chunk encoded size index) assembly
    out.1.err = none ∧ (out.1.complete = true ↔ insert index there = Finset.range packets.length) ∧
      (out.1.complete = true → out.1.payload = encoded) ∧
      InFlight frame encoded size packets.length (collect packets.length there index) out.2 ∧
      ∀ a, out.2 = some a → a.created = assembly.created := by
  have hexisting : assembly.chunks.getD index [] =
      if index ∈ there then chunk encoded size index else [] := by
    simp [h.chunks, chunksOf, getD_eq_getElem?_getD, hindex]
  by_cases hmem : index ∈ there
  · -- the chunk is there already
    have hinsert : insert index there = there := Finset.insert_eq_of_mem hmem
    have hchunk := hcut.nonempty index hindex
    simp only [addChunk, hheader, hexisting, if_pos hmem, if_pos hchunk, ne_eq, not_true,
      if_false, collect, hinsert, if_neg hne]
    refine ⟨rfl, by simp [waiting, hne], by rintro ⟨⟩, .some hthere hne h, ?_⟩
    rintro a ⟨⟩
    rfl
  · have hsubset : insert index there ⊆ Finset.range packets.length :=
      Finset.insert_subset (Finset.mem_range.mpr hindex) hthere
    have htotal : ∑ i ∈ insert index there, (chunk encoded size i).length =
        assembly.total + (chunk encoded size index).length := by
      rw [Finset.sum_insert hmem, h.total, Nat.add_comm]
    have hfits : assembly.total + (chunk encoded size index).length ≤ encoded.length := by
      rw [← htotal, ← sum_chunks hcut]
      exact Finset.sum_le_sum_of_subset hsubset
    have hsize : ¬ (normalizeLimits limits).maxFrameBytes <
        (assembly.total + (chunk encoded size index).length : Nat) := by
      have := hcut.length_le
      omega
    have hcard : (insert index there).card = assembly.received + 1 := by
      rw [Finset.card_insert_of_notMem hmem, h.received]
    have hlast : assembly.received + 1 = packets.length ↔
        insert index there = Finset.range packets.length := by
      rw [← hcard]
      constructor
      · intro hall
        exact Finset.eq_of_subset_of_card_le hsubset (by rw [Finset.card_range, hall])
      · intro heq
        rw [heq, Finset.card_range]
    have hstored : Holds frame encoded size packets.length (insert index there)
        (storeChunk assembly index (chunk encoded size index)) := by
      refine ⟨h.chunkCount, h.baseTick, h.flags, ?_, hcard.symm, htotal.symm⟩
      simp only [storeChunk, h.chunks, chunksOf_set]
    have hlength : (storeChunk assembly index (chunk encoded size index)).chunks.length =
        packets.length := by
      simp [hstored.chunks, chunksOf]
    simp only [addChunk, hheader, hexisting, if_neg hmem, ne_eq, not_true, if_false, if_neg hsize,
      hlength, collect]
    by_cases hall : insert index there = Finset.range packets.length
    · have hreceived : (storeChunk assembly index (chunk encoded size index)).received =
          packets.length := hlast.mpr hall
      rw [if_neg (not_not.mpr hreceived), if_pos hall]
      refine ⟨rfl, by simp [hall], fun _ => ?_, .none, by rintro _ ⟨⟩⟩
      simp only [hstored.chunks, hall]
      exact chunks_complete hcut
    have hreceived : (storeChunk assembly index (chunk encoded size index)).received ≠
        packets.length := fun heq => hall (hlast.mp heq)
    rw [if_pos hreceived, if_neg hall]
    refine ⟨rfl, by simp [waiting, hall], by rintro ⟨⟩, .some hsubset hall hstored, ?_⟩
    rintro a ⟨⟩
    rfl

include hcut in
theorem receiveChunk_ours {length : Nat} {checksum : UInt32}
    (hold : InFlight frame encoded size packets.length there old) (hindex : index < packets.length)
    (hfull : old = none → full = false) :
    let out := receiveChunk (normalizeLimits limits) full now
      { chunkHeader frame sequence packets.length index length with checksum }
      (chunk encoded size index) old
    out.1.err = none ∧ (out.1.complete = true ↔ insert index there = Finset.range packets.length) ∧
      (out.1.complete = true → out.1.payload = encoded) ∧
      InFlight frame encoded size packets.length (collect packets.length there index) out.2 ∧
      ∀ a, out.2 = some a → a.created = now ∨ ∃ b, old = some b ∧ a.created = b.created := by
  have hnat : (ofNat index).toNat = index := toNat_ofNat_of_lt' (hindex.trans hcut.count_lt)
  cases hold with
  | none =>
    simp only [receiveChunk, hfull rfl, Bool.false_eq_true, if_false]
    have hnew : Holds frame encoded size packets.length ∅
        { header := { chunkHeader frame sequence packets.length index length with checksum }
          created := now
          chunks := replicate packets.length []
          received := 0
          total := 0 } :=
      ⟨rfl, rfl, rfl, by simp [chunksOf], rfl, rfl⟩
    have hcount : (chunkHeader frame sequence packets.length index length).chunkCount.toNat =
        packets.length := toNat_ofNat_of_lt' hcut.count_lt
    have hpos : ∅ ≠ Finset.range packets.length :=
      (Finset.nonempty_range_iff.mpr (Nat.ne_zero_of_lt hindex)).ne_empty.symm
    rw [hcount]
    obtain ⟨herr, hcomplete, hpayload, hinflight, hcreated⟩ :=
      hnew.add hcut (Finset.empty_subset _) hpos hindex
        { chunkHeader frame sequence packets.length index length with checksum } hnat
    exact ⟨herr, hcomplete, hpayload, hinflight, fun a ha => .inl (hcreated a ha)⟩
  | @some _ assembly hsubset hne hholds =>
    have hmatch : ¬ (assembly.header.chunkCount ≠ ofNat packets.length ∨
        assembly.header.baseTick ≠ frame.baseTick ∨
        assembly.header.flags ≠ if frame.kind = .full then datagramFlagFull else 0) := by
      rw [hholds.chunkCount, hholds.baseTick, hholds.flags]
      simp
    simp only [receiveChunk]
    rw [if_neg (by exact hmatch)]
    obtain ⟨herr, hcomplete, hpayload, hinflight, hcreated⟩ :=
      hholds.add hcut hsubset hne hindex
        { chunkHeader frame sequence packets.length index length with checksum } hnat
    exact ⟨herr, hcomplete, hpayload, hinflight, fun a ha => .inr ⟨assembly, rfl, hcreated a ha⟩⟩

def Ours (session : UInt64) (packets : List (List UInt8)) (c : Call) : Prop :=
  c.session = session ∧ c.packet ∈ packets

instance : DecidablePred (Ours session packets) := fun c =>
  inferInstanceAs (Decidable (c.session = session ∧ c.packet ∈ packets))

/-- The chunk indices of the frame's packets among the calls. -/
def indices (session : UInt64) (packets : List (List UInt8)) (calls : List Call) : List Nat :=
  (calls.filter fun c => Ours session packets c).map fun c => packets.idxOf c.packet

theorem decodeDatagram_normalize (packet : List UInt8) (limits : Limits) :
    decodeDatagram crc packet (normalizeLimits limits) = decodeDatagram crc packet limits := by
  simp only [decodeDatagram, normalizeLimits_idem]

include hcut in
theorem packets_inj (hi : i < packets.length) (hj : j < packets.length)
    (heq : packets[i] = packets[j]) :
    i = j := by
  obtain ⟨length, checksum, hdecode⟩ := hcut.decode i hi
  obtain ⟨length', checksum', hdecode'⟩ := hcut.decode j hj
  rw [heq, hdecode'] at hdecode
  have hindex := congrArg (fun h => h.1.chunkIndex.toNat) (Except.ok.inj hdecode)
  simp only [chunkHeader] at hindex
  rwa [toNat_ofNat_of_lt' (hj.trans hcut.count_lt),
    toNat_ofNat_of_lt' (hi.trans hcut.count_lt), eq_comm] at hindex

theorem mem_indices {calls : List Call} :
    i ∈ indices session packets calls ↔
      ∃ c ∈ calls, Ours session packets c ∧ packets.idxOf c.packet = i := by
  simp only [indices, mem_map, mem_filter, decide_eq_true_eq, and_assoc]

theorem indices_append_ours {calls : List Call} (h : Ours session packets c) :
    indices session packets (calls ++ [c]) =
      indices session packets calls ++ [packets.idxOf c.packet] := by
  simp [indices, h]

theorem indices_lt {calls : List Call} :
    ∀ i ∈ indices session packets calls, i < packets.length := by
  intro i hi
  obtain ⟨c, -, hours, rfl⟩ := mem_indices.mp hi
  exact idxOf_lt_length_of_mem hours.2

include hcut in
theorem delivered_iff {calls : List Call} :
    Delivered session packets calls ↔ ∀ i < packets.length, i ∈ indices session packets calls := by
  constructor
  · intro h i hi
    obtain ⟨c, hc, hsession, hpacket⟩ := h packets[i] (getElem_mem hi)
    have hmem : c.packet ∈ packets := hpacket ▸ getElem_mem hi
    refine mem_indices.mpr ⟨c, hc, ⟨hsession, hmem⟩, ?_⟩
    apply packets_inj hcut (idxOf_lt_length_of_mem hmem) hi
    rw [getElem_idxOf, hpacket]
  intro h packet hpacket
  obtain ⟨c, hc, hours, hindex⟩ :=
    mem_indices.mp (h (packets.idxOf packet) (idxOf_lt_length_of_mem hpacket))
  exact ⟨c, hc, hours.1, (idxOf_inj hours.2).mp hindex⟩

/-- The chunks of the frame that came in the calls since it was last complete. -/
def chunksIn (session : UInt64) (packets : List (List UInt8)) (calls : List Call) : Finset Nat :=
  (indices session packets calls).foldl (collect packets.length) ∅

include hcut in
theorem insert_chunksIn_iff {calls : List Call} {c : Call} (hours : Ours session packets c)
    (hmissing : ¬ Delivered session packets calls) :
    insert (packets.idxOf c.packet) (chunksIn session packets calls) =
        Finset.range packets.length ↔ Delivered session packets (calls ++ [c]) := by
  rw [delivered_iff hcut] at hmissing ⊢
  push Not at hmissing
  rw [chunksIn, foldl_collect indices_lt hmissing, indices_append_ours hours]
  have hindex := idxOf_lt_length_of_mem hours.2
  constructor
  · intro heq i hi
    have hmem := heq ▸ Finset.mem_range.mpr hi
    simpa [or_comm] using hmem
  intro hall
  ext i
  simp only [Finset.mem_insert, mem_toFinset, Finset.mem_range]
  constructor
  · rintro (rfl | hi)
    · exact hindex
    · exact indices_lt i hi
  · intro hi
    simpa [or_comm] using hall i hi

/-- A reassembler after calls: what it has of the frame. -/
structure Kept (limits : Limits) (ttl : Int) (frame : DeltaFrame) (sequence : UInt32)
    (encoded : List UInt8) (size : Nat) (session : UInt64) (packets : List (List UInt8))
    (calls : List Call) (r : Reassembler) : Prop where
  limits_eq : r.limits = normalizeLimits limits
  ttl_eq : r.ttl = (newReassembler limits ttl).ttl
  inflight : InFlight frame encoded size packets.length (chunksIn session packets calls)
    (r.inflight.lookup (frameKey session frame sequence))
  created : ∀ a, r.inflight.lookup (frameKey session frame sequence) = some a →
    ∃ c ∈ calls, a.created = c.now

variable {ttl : Int} {calls : List Call} {r : Reassembler} {c : Call}

theorem Kept.lookup_expireLocked
    (h : Kept limits ttl frame sequence encoded size session packets calls r)
    (hlive : ∀ b ∈ calls, c.now - b.now < (newReassembler limits ttl).ttl) :
    (expireLocked r c.now).inflight.lookup (frameKey session frame sequence) =
      r.inflight.lookup (frameKey session frame sequence) := by
  simp only [expireLocked, lookup_sweep]
  cases hlookup : r.inflight.lookup (frameKey session frame sequence) with
  | none => rfl
  | some a =>
    obtain ⟨b, hb, hcreated⟩ := h.created a hlookup
    have hnow := hlive b hb
    simpa [live, hcreated, h.ttl_eq] using hnow

include hcut in
theorem Kept.ours (h : Kept limits ttl frame sequence encoded size session packets calls r)
    (hours : Ours session packets c) (hmulti : packets.length ≠ 1)
    (hlive : ∀ b ∈ calls, c.now - b.now < (newReassembler limits ttl).ttl)
    (hroom : r.inflight.lookup (frameKey session frame sequence) = none →
      r.inflight.entries.length < (normalizeLimits limits).maxInflightFrames) :
    let out := push crc r c.session c.packet c.now
    out.1.err = none ∧
      (out.1.complete = true ↔
        insert (packets.idxOf c.packet) (chunksIn session packets calls) =
          Finset.range packets.length) ∧
      (out.1.complete = true → out.1.payload = encoded) ∧
      Kept limits ttl frame sequence encoded size session packets (calls ++ [c]) out.2 := by
  have hindex := idxOf_lt_length_of_mem hours.2
  obtain ⟨length, checksum, hdecode⟩ := hcut.decode _ hindex
  rw [getElem_idxOf, ← decodeDatagram_normalize, ← h.limits_eq] at hdecode
  have hcount : (chunkHeader frame sequence packets.length (packets.idxOf c.packet)
      length).chunkCount ≠ 1 := by
    intro heq
    have hnat : (ofNat packets.length).toNat = 1 := congrArg toNat heq
    rw [toNat_ofNat_of_lt' hcut.count_lt] at hnat
    exact hmulti hnat
  have hkey : keyOf c.session { chunkHeader frame sequence packets.length
      (packets.idxOf c.packet) length with checksum } = frameKey session frame sequence := by
    rw [hours.1]
    rfl
  have hlookup := h.lookup_expireLocked hlive
  have hfull : r.inflight.lookup (frameKey session frame sequence) = none →
      decide ((normalizeLimits limits).maxInflightFrames ≤
        (expireLocked r c.now).inflight.entries.length) = false := by
    intro hnone
    have hlt := hroom hnone
    have hle := length_sweep_le (live r.ttl c.now) r.inflight
    apply decide_eq_false
    simp only [expireLocked]
    omega
  have hreceive : receive (expireLocked r c.now) c.session { chunkHeader frame sequence
      packets.length (packets.idxOf c.packet) length with checksum }
      (chunk encoded size (packets.idxOf c.packet)) c.now =
      receiveChunk (normalizeLimits limits) (decide ((normalizeLimits limits).maxInflightFrames ≤
        (expireLocked r c.now).inflight.entries.length)) c.now
        { chunkHeader frame sequence packets.length (packets.idxOf c.packet) length with checksum }
        (chunk encoded size (packets.idxOf c.packet))
        (r.inflight.lookup (frameKey session frame sequence)) := by
    rw [receive, hkey, hlookup, show (expireLocked r c.now).limits = _ from h.limits_eq]
  obtain ⟨herr, hcomplete, hpayload, hinflight, hcreated⟩ :=
    receiveChunk_ours hcut h.inflight hindex hfull
  rw [push_eq hdecode hcount, hreceive, hkey]
  refine ⟨herr, hcomplete, hpayload, h.limits_eq, h.ttl_eq, ?_, ?_⟩
  · rwa [lookup_write, chunksIn, indices_append_ours hours, foldl_append]
  intro a ha
  rw [lookup_write] at ha
  rcases hcreated a ha with hnow | ⟨b, hb, hsame⟩
  · exact ⟨c, by simp, hnow⟩
  · obtain ⟨d, hd, heq⟩ := h.created b hb
    exact ⟨d, by simp [hd], hsame.trans heq⟩

theorem Kept.other (h : Kept limits ttl frame sequence encoded size session packets calls r)
    (hours : ¬ Ours session packets c)
    (hother : ∀ header payload, decodeDatagram crc c.packet limits = .ok (header, payload) →
      keyOf c.session header ≠ frameKey session frame sequence)
    (hlive : ∀ b ∈ calls, c.now - b.now < (newReassembler limits ttl).ttl) :
    Kept limits ttl frame sequence encoded size session packets (calls ++ [c])
      (push crc r c.session c.packet c.now).2 := by
  have hlookup : (push crc r c.session c.packet c.now).2.inflight.lookup
      (frameKey session frame sequence) = r.inflight.lookup (frameKey session frame sequence) := by
    by_cases hsimple : ∀ header payload,
        decodeDatagram crc c.packet r.limits = .ok (header, payload) → header.chunkCount = 1
    · rw [push_of_other hsimple]
    push Not at hsimple
    obtain ⟨header, payload, hdecode, hmulti⟩ := hsimple
    have hne := hother header payload (by rw [← decodeDatagram_normalize, ← h.limits_eq, hdecode])
    rw [push_inflight hdecode hmulti, lookup_write_ne hne.symm, h.lookup_expireLocked hlive]
  refine ⟨push_config.1.trans h.limits_eq, push_config.2.trans h.ttl_eq, ?_, ?_⟩
  · have hindices : indices session packets (calls ++ [c]) = indices session packets calls := by
      simp [indices, hours]
    rw [hlookup, chunksIn, hindices]
    exact h.inflight
  · intro a ha
    obtain ⟨d, hd, heq⟩ := h.created a (hlookup ▸ ha)
    exact ⟨d, by simp [hd], heq⟩

variable (crc limits ttl frame sequence session packets calls) in
/-- Packets come within the ttl, and there is room for the frame whenever it is not in flight. -/
structure Schedule : Prop where
  others : ∀ c ∈ calls, Ours session packets c ∨
    ∀ header payload, decodeDatagram crc c.packet limits = .ok (header, payload) →
      keyOf c.session header ≠ frameKey session frame sequence
  times : calls.Pairwise fun c c' =>
    c.now ≤ c'.now ∧ c'.now - c.now < (newReassembler limits ttl).ttl
  room : ∀ before c rest, calls = before ++ c :: rest → Ours session packets c →
    (afterCalls crc (newReassembler limits ttl) before).inflight.lookup
        (frameKey session frame sequence) = none →
      (afterCalls crc (newReassembler limits ttl) before).inflight.entries.length <
        (normalizeLimits limits).maxInflightFrames

theorem Schedule.live (h : Schedule crc frame sequence limits packets session ttl calls)
    (hsplit : calls = before ++ c :: rest) :
    ∀ b ∈ before, c.now - b.now < (newReassembler limits ttl).ttl := by
  intro b hb
  have htimes := h.times
  rw [hsplit, pairwise_append] at htimes
  exact (htimes.2.2 b hb c mem_cons_self).2

include hcut in
theorem kept_afterCalls (hmulti : packets.length ≠ 1)
    (h : Schedule crc frame sequence limits packets session ttl calls) :
    ∀ {rest : List Call}, calls = before ++ rest →
      Kept limits ttl frame sequence encoded size session packets before
        (afterCalls crc (newReassembler limits ttl) before) := by
  induction before using reverseRecOn with
  | nil =>
    intro rest _
    exact ⟨rfl, rfl, .none, nofun⟩
  | append_singleton before c ih =>
    intro rest hsplit
    rw [append_assoc, singleton_append] at hsplit
    have hkept := ih hsplit
    rw [afterCalls, foldl_append]
    by_cases hours : Ours session packets c
    · exact (hkept.ours hcut hours hmulti (h.live hsplit) (h.room before c rest hsplit hours)).2.2.2
    · have hmem : c ∈ calls := hsplit ▸ mem_append_right _ mem_cons_self
      exact hkept.other hours ((h.others c hmem).resolve_left hours) (h.live hsplit)

include hcut in
theorem push_single (hsingle : packets.length = 1) (hlimits : r.limits = normalizeLimits limits)
    (hours : Ours session packets c) :
    (push crc r c.session c.packet c.now).1.err = none ∧
      (push crc r c.session c.packet c.now).1.complete = true ∧
      (push crc r c.session c.packet c.now).1.payload = encoded := by
  have hindex := idxOf_lt_length_of_mem hours.2
  obtain ⟨length, checksum, hdecode⟩ := hcut.decode _ hindex
  rw [getElem_idxOf, ← decodeDatagram_normalize, ← hlimits] at hdecode
  have hzero : packets.idxOf c.packet = 0 := by omega
  have hpayload : chunk encoded size 0 = encoded := by
    have hflatten := hcut.flatten
    rw [hsingle] at hflatten
    simpa using hflatten
  have hcount : (chunkHeader frame sequence packets.length (packets.idxOf c.packet)
      length).chunkCount = 1 := by
    rw [hsingle]
    rfl
  simp only [push, hdecode]
  rw [if_pos hcount]
  exact ⟨rfl, rfl, hzero ▸ hpayload⟩

theorem afterCalls_limits (r : Reassembler) (calls : List Call) :
    (afterCalls crc r calls).limits = r.limits := by
  induction calls generalizing r with
  | nil => rfl
  | cons c calls ih => exact (ih _).trans push_config.1

end Frame

/-- A packet never fails, and the one that brings the last chunk completes the frame with its
payload. -/
theorem reassembly_correct {frame : DeltaFrame} {sequence : UInt32} {encoded : List UInt8}
    {maxDatagram : Int} {limits : Limits} {packets : List (List UInt8)} {ttl : Int}
    {session : UInt64} {calls before rest : List Call} {c : Call}
    (hfragment : fragmentFrame crc frame sequence encoded maxDatagram limits = .ok packets)
    (hschedule : Schedule crc frame sequence limits packets session ttl calls)
    (hsplit : calls = before ++ c :: rest) (hours : Ours session packets c) :
    let out := (push crc (afterCalls crc (newReassembler limits ttl) before) c.session c.packet
      c.now).1
    out.err = none ∧
      (¬ Delivered session packets before →
        (out.complete = true ↔ Delivered session packets (before ++ [c]))) ∧
      (out.complete = true → out.payload = encoded) := by
  obtain ⟨size, hcut⟩ := fragmentFrame_cut hfragment
  by_cases hsingle : packets.length = 1
  · obtain ⟨herr, hcomplete, hpayload⟩ :=
      push_single hcut hsingle (afterCalls_limits (newReassembler limits ttl) before) hours
    refine ⟨herr, fun _ => ⟨fun _ => ?_, fun _ => hcomplete⟩, fun _ => hpayload⟩
    rw [delivered_iff hcut, indices_append_ours hours]
    intro i hi
    have hindex := idxOf_lt_length_of_mem hours.2
    exact mem_append_right _ (mem_singleton.mpr (by omega))
  have hkept := kept_afterCalls hcut hsingle hschedule hsplit
  obtain ⟨herr, hcomplete, hpayload, -⟩ :=
    hkept.ours hcut hours hsingle (hschedule.live hsplit)
      (hschedule.room before c rest hsplit hours)
  exact ⟨herr, fun hmissing => hcomplete.trans (insert_chunksIn_iff hcut hours hmissing), hpayload⟩

/-- A frame whose encoding is sent in two packets of one byte each. -/
def twoPackets : List (List UInt8) :=
  (fragmentFrame (fun _ => 0) oneUpdate 1 [7, 8] (datagramHeaderSize + 1)
    defaultLimits).toOption.getD []

def twoPacketCalls : List Call :=
  [⟨3, twoPackets.getD 1 [], 0⟩, ⟨3, twoPackets.getD 1 [], 5⟩, ⟨3, twoPackets.getD 0 [], 9⟩]

theorem twoPacketCalls_schedule :
    Schedule (fun _ => 0) oneUpdate 1 defaultLimits twoPackets 3 0 twoPacketCalls where
  others c hc := .inl ((by decide +kernel : ∀ c ∈ twoPacketCalls, Ours 3 twoPackets c) c hc)
  times := by decide +kernel
  room before c rest hsplit _ _ := by
    have hroom : ∀ n < 3, (afterCalls (fun _ => 0) (newReassembler defaultLimits 0)
        (twoPacketCalls.take n)).inflight.entries.length <
          (normalizeLimits defaultLimits).maxInflightFrames := by decide +kernel
    have htake : before = twoPacketCalls.take before.length := by
      rw [hsplit, take_left]
    have hlength := congrArg length hsplit
    simp only [twoPacketCalls, length_append, length_cons, length_nil] at hlength
    rw [htake]
    exact hroom before.length (by omega)

theorem reassembly_correct_two_packets :
    let out := (push (fun _ => 0) (afterCalls (fun _ => 0) (newReassembler defaultLimits 0)
      (twoPacketCalls.take 2)) 3 (twoPackets.getD 0 []) 9).1
    out.complete = true ∧ out.err = none ∧ out.payload = [7, 8] := by
  have hfragment : fragmentFrame (fun _ => 0) oneUpdate 1 [7, 8] (datagramHeaderSize + 1)
      defaultLimits = .ok twoPackets := by decide +kernel
  have hsplit : twoPacketCalls =
      twoPacketCalls.take 2 ++ ⟨3, twoPackets.getD 0 [], 9⟩ :: [] := by decide +kernel
  obtain ⟨herr, hcomplete, hpayload⟩ :=
    reassembly_correct _ hfragment twoPacketCalls_schedule hsplit (by decide +kernel)
  have hlast := (hcomplete (by decide +kernel)).mpr (by decide +kernel)
  exact ⟨hlast, herr, hpayload hlast⟩

end CubeCore.ReassembledFrames
