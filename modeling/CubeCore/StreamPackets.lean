import CubeCore.SyncStream

namespace CubeCore.StreamPackets

open NumberedLog SyncStream List AList

variable {J : Type}

def ofKey (key : StreamKey) (packets : List Packet) : List Packet :=
  packets.filter fun packet => packet.key = key

@[simp]
theorem ofKey_append (key : StreamKey) (xs ys : List Packet) :
    ofKey key (xs ++ ys) = ofKey key xs ++ ofKey key ys :=
  filter_append ..

variable {key : StreamKey} {packets : List Packet}

theorem ofKey_of_all (h : ∀ packet ∈ packets, packet.key = key) : ofKey key packets = packets := by
  simpa [ofKey] using h

theorem ofKey_of_ne (h : ∀ packet ∈ packets, packet.key = key') (hne : key ≠ key') :
    ofKey key packets = [] := by
  simp only [ofKey, filter_eq_nil_iff, decide_eq_true_eq]
  intro packet hmem heq
  exact hne (heq.symm.trans (h packet hmem))

/-- The packets of one epoch: numbered without a gap up to `latest`, a delta based on the packet
before it, and an end retained. -/
structure Live (epoch start : Nat) (live : List Packet) (state : StreamState) : Prop where
  epoch : ∀ packet ∈ live, packet.epoch = epoch
  numbered : Numbered Packet.sequence start live
  linked : ∀ packet ∈ live, packet.full = false → packet.baseSequence + 1 = packet.sequence
  latest : state.latest = start + live.length
  retained : state.items <:+ live

theorem Live.empty (epoch : Nat) : Live epoch 0 [] {} where
  epoch := by simp
  numbered := trivial
  linked := by simp
  latest := rfl
  retained := suffix_refl []

variable {h : History J}

variable {start : Nat} {state : StreamState}

theorem Live.push (hlive : Live h.epoch start live state) (packet : Packet) (limit now : Int) :
    Live h.epoch start (live ++ [sequenced h state packet])
      (state.push limit (sequenced h state packet) now) where
  epoch := by
    rw [forall_mem_append, forall_mem_singleton]
    exact ⟨hlive.epoch, rfl⟩
  numbered := by
    apply hlive.numbered.snoc
    show state.latest + 1 = _
    rw [hlive.latest]
  linked := by
    rw [forall_mem_append, forall_mem_singleton]
    refine ⟨hlive.linked, fun hdelta => ?_⟩
    have hdelta : packet.full = false := hdelta
    simp [sequenced, hdelta]
  latest := by
    show state.latest + 1 = _
    rw [hlive.latest, length_append, length_singleton, Nat.add_assoc]
  retained := by
    obtain ⟨front, hfront⟩ := hlive.retained
    refine (drop_suffix _ _).trans ⟨front, ?_⟩
    rw [← append_assoc, hfront]

variable {epoch : Nat}

theorem Live.shrink (hlive : Live epoch start live state) (hlatest : state'.latest = state.latest)
    (hitems : state'.items <:+ state.items) : Live epoch start live state' where
  __ := hlive
  latest := hlatest.trans hlive.latest
  retained := hitems.trans hlive.retained

/-- The packets of a key: those of earlier epochs, and those of the stream that is
there now. -/
def Fits (epoch : Nat) (packets : List Packet) (state : StreamState) : Prop :=
  ∃ old live start, packets = old ++ live ∧ (∀ packet ∈ old, packet.epoch ≠ epoch) ∧
    Live epoch start live state

theorem Fits.push (hfits : Fits h.epoch packets state) (packet : Packet) (limit now : Int) :
    Fits h.epoch (packets ++ [sequenced h state packet])
      (state.push limit (sequenced h state packet) now) := by
  obtain ⟨old, live, start, rfl, hold, hlive⟩ := hfits
  exact ⟨old, live ++ [sequenced h state packet], start, by simp, hold, hlive.push packet limit now⟩

theorem Fits.shrink (hfits : Fits epoch packets state) (hlatest : state'.latest = state.latest)
    (hitems : state'.items <:+ state.items) :
    Fits epoch packets state' := by
  obtain ⟨old, live, start, hsplit, hold, hlive⟩ := hfits
  exact ⟨old, live, start, hsplit, hold, hlive.shrink hlatest hitems⟩

variable {packet : Packet}

theorem Fits.after {before after} (hfits : Fits epoch (before ++ packet :: after) state)
    (hepoch : packet.epoch = epoch) :
    ∃ front start, Live epoch start (front ++ packet :: after) state := by
  obtain ⟨old, live, start, hsplit, hold, hlive⟩ := hfits
  rcases append_eq_append_iff.mp hsplit with ⟨mid, rfl, hmid⟩ | ⟨mid, rfl, rfl⟩
  · cases mid with
    | nil =>
      obtain rfl : packet :: after = live := hmid
      exact ⟨[], start, hlive⟩
    | cons =>
      obtain ⟨rfl, -⟩ := cons.inj hmid
      exact absurd hepoch (hold packet (by simp))
  · exact ⟨mid, start, hlive⟩

theorem placeFault_none (h : placeFault packet previous = none) :
    (packet.full = false → packet.baseSequence + 1 = packet.sequence) ∧
      ∀ number schema, previous = some (number, schema) → packet.sequence = number + 1 := by
  revert h
  unfold placeFault
  split
  · split_ifs with hbase
    · exact nofun
    · intro _
      exact ⟨fun hdelta => not_not.mp fun hne => hbase ⟨hdelta, hne⟩, nofun⟩
  rename_i number schema
  split
  · exact nofun
  rename_i hchain
  have hsequence : packet.sequence = number + 1 := not_not.mp fun hne => hchain (.inl hne)
  intro _
  refine ⟨fun hdelta => ?_, ?_⟩
  · have hbase : packet.baseSequence = number := not_not.mp fun hne => hchain (.inr ⟨hdelta, hne⟩)
    rw [hbase, hsequence]
  · intro _ _ heq
    cases heq
    exact hsequence

/-- What `Import` asks of a packet by itself. -/
structure Accepted (options : HistoryOptions) (epoch : Nat) (key : StreamKey)
    (packet : Packet) : Prop where
  key : packet.key = key
  epoch : packet.epoch = epoch
  sequence : packet.sequence ≠ 0
  schemaVersion : packet.schemaVersion ≠ 0
  payload : ¬ (0 < options.maxPayloadBytes ∧ options.maxPayloadBytes < packet.payload.length)
  base : packet.full = true → packet.baseSequence = 0

variable {options : HistoryOptions} {item : HistoryStreamSnapshot}

theorem checkPackets_cons :
    checkPackets options epoch item previous (packet :: rest) = .ok () ↔
      Accepted options epoch item.key packet ∧ placeFault packet previous = none ∧
        checkPackets options epoch item (some (packet.sequence, packet.schemaVersion)) rest =
          .ok () := by
  constructor
  · intro h
    unfold checkPackets at h
    split at h
    · cases h
    rename_i hidentity
    simp only [not_or, not_not] at hidentity
    obtain ⟨hobserver, hstream, hepoch, hsequence, hschema⟩ := hidentity
    split at h
    · cases h
    rename_i hpayload
    split at h
    · cases h
    rename_i hplace
    split_ifs at h with hbase
    refine ⟨⟨?_, hepoch, hsequence, hschema, hpayload, ?_⟩, hplace, h⟩
    · rw [Packet.key, HistoryStreamSnapshot.key, hobserver, hstream]
    · exact fun hfull => not_not.mp fun hne => hbase ⟨hfull, hne⟩
  · rintro ⟨haccepted, hplace, hrest⟩
    obtain ⟨hobserver, hstream⟩ := StreamKey.mk.inj haccepted.key
    unfold checkPackets
    rw [if_neg, if_neg haccepted.payload, hplace]
    · rw [if_neg (fun hbase => hbase.2 (haccepted.base hbase.1)), hrest]
    · simp only [not_or, not_not]
      exact ⟨hobserver, hstream, haccepted.epoch, haccepted.sequence, haccepted.schemaVersion⟩

/-- The packets of one key and one epoch, each delta based on the packet before. -/
def Wellformed (key : StreamKey) (epoch : Nat) (packets : List Packet) : Prop :=
  ∀ packet ∈ packets, packet.key = key ∧ packet.epoch = epoch ∧
    (packet.full = false → packet.baseSequence + 1 = packet.sequence)

theorem checkPackets_behind
    (h : checkPackets options epoch item (some (number, schema)) packets = .ok ()) :
    Wellformed item.key epoch packets ∧ Numbered Packet.sequence number packets := by
  induction packets generalizing number schema with
  | nil => exact ⟨nofun, trivial⟩
  | cons packet rest ih =>
    obtain ⟨haccepted, hplace, hrest⟩ := checkPackets_cons.mp h
    obtain ⟨hlinked, hnumber⟩ := placeFault_none hplace
    have hsequence := hnumber _ _ rfl
    obtain ⟨hwell, hnumbered⟩ := ih hrest
    refine ⟨forall_mem_cons.mpr ⟨⟨haccepted.key, haccepted.epoch, hlinked⟩, hwell⟩, hsequence, ?_⟩
    rwa [← hsequence]

theorem checkPackets_ok (h : checkPackets options epoch item none packets = .ok ()) :
    Wellformed item.key epoch packets ∧ ∃ start, Numbered Packet.sequence start packets := by
  cases packets with
  | nil => exact ⟨nofun, 0, trivial⟩
  | cons packet =>
    obtain ⟨haccepted, hplace, hrest⟩ := checkPackets_cons.mp h
    obtain ⟨hlinked, -⟩ := placeFault_none hplace
    obtain ⟨hwell, hnumbered⟩ := checkPackets_behind hrest
    have hzero := haccepted.sequence
    have hstart : packet.sequence = packet.sequence - 1 + 1 := by omega
    refine ⟨forall_mem_cons.mpr ⟨⟨haccepted.key, haccepted.epoch, hlinked⟩, hwell⟩,
      packet.sequence - 1, hstart, ?_⟩
    rwa [← hstart]

variable {now : Int}

theorem live_of_importStream (h : importStream options epoch now item = .ok state) :
    Wellformed item.key epoch item.packets ∧ ∃ start, Live epoch start item.packets state := by
  unfold importStream at h
  split at h
  · cases h
  split at h
  · cases h
  rename_i hcheck
  split at h
  · cases h
  rename_i hlast
  dsimp only at h
  split at h
  · cases h
  cases h
  obtain ⟨hwell, start, hnumbered⟩ := checkPackets_ok hcheck
  refine ⟨hwell, ?_⟩
  have hlive : ∀ start, Numbered Packet.sequence start item.packets →
      item.latest = start + item.packets.length →
      Live epoch start item.packets (item.state options.maxPacketsPerStream now) :=
    fun start hnumbered hlatest =>
      { epoch := fun packet hmem => (hwell packet hmem).2.1
        numbered := hnumbered
        linked := fun packet hmem => (hwell packet hmem).2.2
        latest := hlatest
        retained := drop_suffix _ _ }
  cases hgetLast : item.packets.getLast? with
  | none =>
    -- all packets are pruned: the stream goes on from `latest`
    have hnil := getLast?_eq_none_iff.mp hgetLast
    refine ⟨item.latest, hlive _ ?_ ?_⟩
    · rw [hnil]
      trivial
    · rw [hnil]
      rfl
  | some =>
    refine ⟨start, hlive _ hnumbered ?_⟩
    rw [← hnumbered.number_getLast hgetLast]
    simp only [hgetLast, Option.any_some, decide_eq_true_eq, not_not] at hlast
    exact hlast.symm

/-- The streams `Import` has built from `packets`. -/
structure Imported (epoch : Nat) (packets : List Packet)
    (streams : AList fun _ : StreamKey => StreamState) : Prop where
  sameEpoch : ∀ packet ∈ packets, packet.epoch = epoch
  live : ∀ {key state}, streams.lookup key = some state →
    ∃ start, Live epoch start (ofKey key packets) state
  absent : ∀ {key}, streams.lookup key = none → ofKey key packets = []

variable {streams : AList fun _ : StreamKey => StreamState}

theorem Imported.insert (himported : Imported epoch packets streams)
    (hnone : streams.lookup key = none) (hwell : Wellformed key epoch new)
    (hlive : Live epoch start new state) :
    Imported epoch (packets ++ new) (streams.insert key state) := by
  have hkeys : ∀ packet ∈ new, packet.key = key := fun packet hmem => (hwell packet hmem).1
  refine ⟨?_, ?_, ?_⟩
  · rw [forall_mem_append]
    exact ⟨himported.sameEpoch, fun packet hnew => (hwell packet hnew).2.1⟩
  · intro key' state' hlookup
    rw [ofKey_append]
    rcases eq_or_ne key' key with rfl | hne
    · rw [lookup_insert] at hlookup
      cases hlookup
      rw [himported.absent hnone, ofKey_of_all hkeys]
      exact ⟨start, hlive⟩
    · rw [lookup_insert_ne hne] at hlookup
      rw [ofKey_of_ne hkeys hne, append_nil]
      exact himported.live hlookup
  · intro key' hlookup
    rw [ofKey_append]
    rcases eq_or_ne key' key with rfl | hne
    · rw [lookup_insert] at hlookup
      cases hlookup
    · rw [lookup_insert_ne hne] at hlookup
      rw [ofKey_of_ne hkeys hne, himported.absent hlookup]
      rfl

theorem imported_of_importStreams (himported : Imported epoch packets streams)
    (h : importStreams options epoch now index streams items = .ok streams') :
    Imported epoch (packets ++ items.flatMap (·.packets)) streams' := by
  induction items generalizing index packets streams with
  | nil =>
    cases h
    simpa using himported
  | cons item items ih =>
    unfold importStreams at h
    split at h
    · cases h
    split at h
    · cases h
    rename_i hnone
    split at h
    · cases h
    rename_i state hstate
    obtain ⟨hwell, start, hlive⟩ := live_of_importStream hstate
    have hnone := Option.not_isSome_iff_eq_none.mp hnone
    have hrest := ih (himported.insert hnone hwell hlive) h
    rwa [append_assoc] at hrest

theorem imported_of_importSnapshot (himport : importSnapshot h snapshot now = (h', .ok ())) :
    h'.epoch ≠ 0 ∧ Imported h'.epoch (snapshot.streams.flatMap (·.packets)) h'.streams := by
  have hempty : Imported snapshot.epoch [] ∅ := by
    refine ⟨nofun, ?_, fun _ => rfl⟩
    intro key state hlookup
    cases hlookup
  revert himport
  fun_cases importSnapshot h snapshot now with
  | case5 _ hepoch _ _ hstreams =>
    rintro ⟨⟩
    exact ⟨hepoch, imported_of_importStreams hempty hstreams⟩
  | _ => exact nofun

end CubeCore.StreamPackets
