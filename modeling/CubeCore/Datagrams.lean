import CubeCore.FrameCodec

namespace CubeCore.Datagrams

open Checked WireFormat ReplicationSnapshot SnapshotDelta FrameCodec List Nat

def datagramMagic : UInt32 := 0x43524431

def datagramHeaderSize : Nat := 42

def datagramFlagFull : UInt16 := 1

structure DatagramHeader where
  protocol : UInt16
  flags : UInt16
  roomID : UInt64
  epoch : UInt32
  tick : UInt32
  baseTick : UInt32
  sequence : UInt32
  chunkIndex : UInt16
  chunkCount : UInt16
  payloadLen : UInt16
  checksum : UInt32
deriving DecidableEq

/-- The header that is returned with an error. -/
def DatagramHeader.zero : DatagramHeader :=
  ⟨0, 0, 0, 0, 0, 0, 0, 0, 0, 0, 0⟩

/-- The first 38 bytes of a datagram, up to the checksum. -/
def headerBytes (header : DatagramHeader) : List UInt8 :=
  putBE 4 datagramMagic.toNat ++ (putBE 2 header.protocol.toNat ++
    (putBE 2 header.flags.toNat ++ (putBE 8 header.roomID.toNat ++
    (putBE 4 header.epoch.toNat ++ (putBE 4 header.tick.toNat ++
    (putBE 4 header.baseTick.toNat ++ (putBE 4 header.sequence.toNat ++
    (putBE 2 header.chunkIndex.toNat ++ (putBE 2 header.chunkCount.toNat ++
    putBE 2 header.payloadLen.toNat)))))))))

/-- The bytes `lo` to `hi` of a packet, as an integer. -/
def field (packet : List UInt8) (lo hi : Nat) : Nat :=
  getBE ((packet.drop lo).take (hi - lo))

-- the CRC-32 of a byte string
variable (crc : List UInt8 → UInt32) (packet : List UInt8)

def checksumDatagram : UInt32 :=
  crc (packet.take 38 ++ [0, 0, 0, 0] ++ packet.drop datagramHeaderSize)

def encodeDatagram (header : DatagramHeader) (payload : List UInt8) :
    Except ReplicationError (List UInt8) := do
  rejectIf (header.protocol ≠ protocolVersion ∨ header.roomID = 0 ∨ header.epoch = 0 ∨
    header.tick = 0 ∨ header.sequence = 0 ∨ header.chunkCount = 0 ∨
    header.chunkCount ≤ header.chunkIndex ∨ payload.length ≠ header.payloadLen.toNat)
    .invalidDatagram
  let checksum := checksumDatagram crc (headerBytes header ++ [0, 0, 0, 0] ++ payload)
  return headerBytes header ++ putBE 4 checksum.toNat ++ payload

def headerOf : DatagramHeader where
  protocol := UInt16.ofNat (field packet 4 6)
  flags := UInt16.ofNat (field packet 6 8)
  roomID := UInt64.ofNat (field packet 8 16)
  epoch := UInt32.ofNat (field packet 16 20)
  tick := UInt32.ofNat (field packet 20 24)
  baseTick := UInt32.ofNat (field packet 24 28)
  sequence := UInt32.ofNat (field packet 28 32)
  chunkIndex := UInt16.ofNat (field packet 32 34)
  chunkCount := UInt16.ofNat (field packet 34 36)
  payloadLen := UInt16.ofNat (field packet 36 38)
  checksum := UInt32.ofNat (field packet 38 42)

def decodeDatagram (limits : Limits) :
    Except ReplicationError (DatagramHeader × List UInt8) := do
  let limits := normalizeLimits limits
  rejectIf (packet.length < datagramHeaderSize ∨ limits.maxDatagramBytes < packet.length ∨
    UInt32.ofNat (field packet 0 4) ≠ datagramMagic) .invalidDatagram
  let header := headerOf packet
  rejectIf (header.protocol ≠ protocolVersion ∨ header.roomID = 0 ∨ header.epoch = 0 ∨
    header.tick = 0 ∨ header.sequence = 0 ∨ header.chunkCount = 0 ∨
    limits.maxFragments < header.chunkCount.toNat ∨ header.chunkCount ≤ header.chunkIndex ∨
    header.payloadLen.toNat ≠ packet.length - datagramHeaderSize ∨
    header.flags &&& ~~~datagramFlagFull ≠ 0) .invalidDatagram
  rejectIf (checksumDatagram crc packet ≠ header.checksum) .checksumMismatch
  return (header, packet.drop datagramHeaderSize)

variable (frame : DeltaFrame)

/-- The header of the chunk `index` of a frame. -/
def chunkHeader (sequence : UInt32) (count index length : Nat) :
    DatagramHeader where
  protocol := protocolVersion
  flags := if frame.kind = .full then datagramFlagFull else 0
  roomID := frame.roomID
  epoch := frame.epoch
  tick := frame.tick
  baseTick := frame.baseTick
  sequence := sequence
  chunkIndex := UInt16.ofNat index
  chunkCount := UInt16.ofNat count
  payloadLen := UInt16.ofNat length
  checksum := 0

/-- The chunk `index` of a payload that is cut after every `size` bytes. -/
def chunk (encoded : List UInt8) (size index : Nat) : List UInt8 :=
  (encoded.drop (index * size)).take size

def fragment (sequence : UInt32) (encoded : List UInt8) (maxDatagram : Int)
    (size count index : Nat) : Except ReplicationError (List UInt8) := do
  let payload := chunk encoded size index
  let packet ← encodeDatagram crc (chunkHeader frame sequence count index payload.length) payload
  rejectIf (maxDatagram < packet.length) .invalidDatagram
  return packet

def fragmentFrame (sequence : UInt32) (encoded : List UInt8) (maxDatagram : Int) (limits : Limits) :
    Except ReplicationError (List (List UInt8)) := do
  let limits := normalizeLimits limits
  rejectIf (sequence = 0 ∨ encoded = [] ∨ limits.maxFrameBytes < encoded.length) .invalidDatagram
  let maxDatagram := orDefault maxDatagram defaultLimits.maxDatagramBytes
  rejectIf (limits.maxDatagramBytes < maxDatagram) .invalidDatagram
  let maxPayload := maxDatagram - datagramHeaderSize
  rejectIf (maxPayload ≤ 0 ∨ 65535 < maxPayload) .invalidDatagram
  let size := maxPayload.toNat
  let count := (encoded.length + size - 1) / size
  rejectIf (count = 0 ∨ limits.maxFragments < count ∨ 65535 < count) .fragmentLimit
  (List.range count).mapM (fragment crc frame sequence encoded maxDatagram size count)

theorem field_skip (h : front.length ≤ lo) :
    field (front ++ rest) lo hi = field rest (lo - front.length) (hi - front.length) := by
  have hwidth : hi - front.length - (lo - front.length) = hi - lo := by omega
  rw [field, field, hwidth, drop_append, drop_eq_nil_of_le h, nil_append]

theorem field_here (h : front.length = hi) :
    field (front ++ rest) 0 hi = getBE front := by
  subst h
  simp [field]

theorem headerOf_encoded (header : DatagramHeader) (checksum : UInt32) (payload : List UInt8) :
    UInt32.ofNat (field (headerBytes header ++ (putBE 4 checksum.toNat ++ payload)) 0 4) =
        datagramMagic ∧
      headerOf (headerBytes header ++ (putBE 4 checksum.toNat ++ payload)) =
        { header with checksum } := by
  have h16 : ∀ v : UInt16, UInt16.ofNat (v.toNat % 256 ^ 2) = v := fun v => by
    rw [mod_eq_of_lt (by exact v.toNat_lt), UInt16.ofNat_toNat]
  have h32 : ∀ v : UInt32, UInt32.ofNat (v.toNat % 256 ^ 4) = v := fun v => by
    rw [mod_eq_of_lt (by exact v.toNat_lt), UInt32.ofNat_toNat]
  have h64 : ∀ v : UInt64, UInt64.ofNat (v.toNat % 256 ^ 8) = v := fun v => by
    rw [mod_eq_of_lt (by exact v.toNat_lt), UInt64.ofNat_toNat]
  simp only [headerOf, headerBytes, append_assoc]
  constructor
  · rw [field_here (length_putBE _ _), getBE_putBE, h32]
  rw [DatagramHeader.mk.injEq]
  refine ⟨?_, ?_, ?_, ?_, ?_, ?_, ?_, ?_, ?_, ?_, ?_⟩ <;>
    simp (disch := simp) only [field_skip, field_here, length_putBE, reduceSub,
      getBE_putBE, h16, h32, h64]

theorem flatten_chunks (encoded : List UInt8) (size count : Nat) :
    ((range count).map (chunk encoded size)).flatten = encoded.take (count * size) := by
  induction count with
  | zero => simp
  | succ count ih =>
    rw [range_succ, map_append, flatten_append, ih, succ_mul, take_add]
    simp [chunk]

theorem chunk_ne_nil {size : Nat} (hsize : 0 < size) (h : index * size < encoded.length) :
    chunk encoded size index ≠ [] := by
  apply ne_nil_of_length_pos
  simp only [chunk, length_take, length_drop]
  omega

variable {crc} {frame : DeltaFrame} {sequence : UInt32} {encoded : List UInt8}
  {maxDatagram : Int} {limits : Limits}

theorem decodeDatagram_encodeDatagram (limits : Limits) {payload packet : List UInt8}
    (h : encodeDatagram crc header payload = .ok packet)
    (hsize : packet.length ≤ (normalizeLimits limits).maxDatagramBytes)
    (hcount : header.chunkCount.toNat ≤ (normalizeLimits limits).maxFragments)
    (hflags : header.flags &&& ~~~datagramFlagFull = 0) :
    ∃ checksum, decodeDatagram crc packet limits = .ok ({ header with checksum }, payload) := by
  simp only [encodeDatagram, bind_eq_ok, exists_unit, rejectIf_eq_ok, pure_eq_ok] at h
  obtain ⟨hvalid, rfl⟩ := h
  push Not at hvalid
  obtain ⟨hprotocol, hroom, hepoch, htick, hsequence, hpos, hindex, hlength⟩ := hvalid
  have hheader : (headerBytes header).length = 38 := by simp [headerBytes]
  generalize hsum : checksumDatagram crc (headerBytes header ++ [0, 0, 0, 0] ++ payload) =
    checksum at hsize ⊢
  rw [append_assoc] at hsize ⊢
  obtain ⟨hmagic, hheaderOf⟩ := headerOf_encoded header checksum payload
  have hdrop : ∀ middle : List UInt8, middle.length = 4 →
      (headerBytes header ++ (middle ++ payload)).drop datagramHeaderSize = payload := by
    intro middle hmiddle
    rw [← append_assoc, drop_left']
    simp [hheader, hmiddle, datagramHeaderSize]
  have htake : ∀ rest : List UInt8, (headerBytes header ++ rest).take 38 = headerBytes header :=
    fun rest => take_left' hheader
  have hchecksum :
      checksumDatagram crc (headerBytes header ++ (putBE 4 checksum.toNat ++ payload)) =
      checksum := by
    rw [checksumDatagram, htake, hdrop _ (length_putBE _ _), ← hsum, checksumDatagram,
      append_assoc (headerBytes header) [0, 0, 0, 0] payload, htake, hdrop _ rfl,
      append_assoc]
  have hpacket : (headerBytes header ++ (putBE 4 checksum.toNat ++ payload)).length =
      42 + payload.length := by
    simp [hheader]
    omega
  refine ⟨checksum, ?_⟩
  simp only [decodeDatagram, bind_eq_ok, exists_unit, rejectIf_eq_ok, pure_eq_ok]
  rw [hheaderOf, hchecksum]
  refine ⟨?_, ?_, by simp, rfl⟩
  · simp only [hmagic, datagramHeaderSize]
    push Not
    exact ⟨by omega, hsize, rfl⟩
  push Not
  refine ⟨hprotocol, hroom, hepoch, htick, hsequence, hpos, hcount, hindex, ?_, hflags⟩
  rw [← hlength, datagramHeaderSize]
  omega

/-- What `FragmentFrame` cut a payload into. -/
structure Cut (crc : List UInt8 → UInt32) (frame : DeltaFrame) (sequence : UInt32)
    (encoded : List UInt8) (limits : Limits) (packets : List (List UInt8)) (size : Nat) :
    Prop where
  count_lt : packets.length < 2 ^ 16
  length_le : encoded.length ≤ (normalizeLimits limits).maxFrameBytes
  flatten : ((List.range packets.length).map (chunk encoded size)).flatten = encoded
  nonempty : ∀ i < packets.length, chunk encoded size i ≠ []
  decode : ∀ i (h : i < packets.length), ∃ length checksum,
    decodeDatagram crc packets[i] limits =
      .ok ({ chunkHeader frame sequence packets.length i length with checksum },
        chunk encoded size i)

theorem fragmentFrame_cut
    (h : fragmentFrame crc frame sequence encoded maxDatagram limits = .ok packets) :
    ∃ size, Cut crc frame sequence encoded limits packets size := by
  simp only [fragmentFrame, bind_eq_ok, exists_unit, rejectIf_eq_ok] at h
  obtain ⟨hencoded, hdatagram, hpayload, hcount, hpackets⟩ := h
  push Not at hencoded hdatagram hpayload hcount
  generalize hsize : (orDefault maxDatagram defaultLimits.maxDatagramBytes -
    (datagramHeaderSize : Int)).toNat = size at hcount hpackets
  generalize hn : (encoded.length + size - 1) / size = count at hcount hpackets
  have hpos : 0 < size := by omega
  have hforall := mapM_eq_ok hpackets
  have hlength : packets.length = count := by simpa using hforall.length_eq.symm
  subst hlength
  refine ⟨size, ⟨by omega, hencoded.2.2, ?_, ?_, ?_⟩⟩
  · rw [flatten_chunks, take_of_length_le]
    have hdiv := lt_mul_div_succ (encoded.length + size - 1) hpos
    rw [hn, mul_succ, mul_comm] at hdiv
    omega
  · intro i hi
    apply chunk_ne_nil hpos
    have hle : i * size + size ≤ packets.length * size := by
      rw [← succ_mul]
      exact mul_le_mul_right size hi
    have hdiv := div_mul_le_self (encoded.length + size - 1) size
    rw [hn] at hdiv
    omega
  · intro i hi
    have hfragment := hforall.get (by simpa using hi) hi
    simp only [get_eq_getElem, getElem_range, fragment, bind_eq_ok, exists_unit,
      rejectIf_eq_ok, pure_eq_ok] at hfragment
    obtain ⟨packet, hencode, hfits, hpacket⟩ := hfragment
    rw [hpacket] at hencode hfits
    have hnat : (UInt16.ofNat packets.length).toNat = packets.length :=
      UInt16.toNat_ofNat_of_lt' (lt_succ_of_le hcount.2.2)
    have hflags : (if frame.kind = .full then datagramFlagFull else 0) &&& ~~~datagramFlagFull =
        0 := by
      split <;> decide
    obtain ⟨checksum, hdecode⟩ := decodeDatagram_encodeDatagram limits hencode (by omega)
      (by rw [chunkHeader, hnat]; exact hcount.2.1) hflags
    exact ⟨_, checksum, hdecode⟩

end CubeCore.Datagrams
