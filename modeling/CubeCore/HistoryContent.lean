import Mathlib.Data.Set.Card
import CubeCore.FileJournal
import CubeCore.StreamPackets

namespace CubeCore.HistoryContent

open FileJournal NumberedLog StreamPackets SyncStream List

structure StreamContent where
  latest : Nat := 0
  acked : Nat := 0
  schema : Nat := 0
  items : List Packet := []

structure Content where
  epoch : Nat
  streams : StreamKey → Option StreamContent

def Content.blank (epoch : Nat) : Content := ⟨epoch, fun _ => none⟩

def streamContent (state : StreamState) : StreamContent :=
  ⟨state.latest, state.acked, state.schema, state.items⟩

def contentOf {J : Type} (h : History J) : Content :=
  ⟨h.epoch, fun key => (h.streams.lookup key).map streamContent⟩

theorem contentOf_streams (h : History J) (key : StreamKey) :
    (contentOf h).streams key = (h.streams.lookup key).map streamContent := rfl

/-- The stream once a packet is appended; `limit` packets are retained. -/
def StreamContent.append (limit : Nat) (stream : StreamContent) (packet : Packet) : StreamContent :=
  { stream with
    latest := packet.sequence
    schema := packet.schemaVersion
    items := (stream.items ++ [packet]).rtake limit }

def StreamContent.acknowledge (stream : StreamContent) (prune : Bool) (sequence : Nat) :
    StreamContent :=
  { stream with
    acked := sequence
    items :=
      if prune then stream.items.dropWhile (fun packet => packet.sequence ≤ sequence)
      else stream.items }

/-- What a mutation means. -/
def Content.apply (limit : Nat) (c : Content) (mutation : HistoryMutation) : Content :=
  match mutation.kind with
  | .append =>
    let key := mutation.packet.key
    let stream := ((c.streams key).getD {}).append limit mutation.packet
    { c with streams := Function.update c.streams key (some stream) }
  | .acknowledge =>
    let key := ⟨mutation.observer, mutation.stream⟩
    let stream := (c.streams key).map fun stream =>
      stream.acknowledge mutation.pruneAcknowledged mutation.sequence
    { c with streams := Function.update c.streams key stream }
  | .deleteStream =>
    { c with
      streams := fun key =>
        if key = ⟨mutation.observer, mutation.stream⟩ then none else c.streams key }
  | .deleteObserver =>
    { c with
      streams := fun key => if key.observer = mutation.observer then none else c.streams key }
  | .sweepIdle =>
    { c with streams := fun key => if key ∈ mutation.targets then none else c.streams key }
  | .rotateEpoch => .blank mutation.epoch

def Content.applyAll (limit : Nat) (c : Content) (mutations : List HistoryMutation) : Content :=
  mutations.foldl (Content.apply limit) c

def Content.support (c : Content) : Set StreamKey := {key | (c.streams key).isSome}

/-- A packet that can be the next one of a stream with these numbers. -/
structure Fitting (options : HistoryOptions) (epoch latest schema : Nat) (packet : Packet) :
    Prop where
  topic : packet.stream.topic ≠ ""
  payload : ¬ (0 < options.maxPayloadBytes ∧ options.maxPayloadBytes < packet.payload.length)
  epoch : packet.epoch = epoch
  sequence : packet.sequence = latest + 1
  base : packet.baseSequence = if packet.full then 0 else latest
  schemaVersion : packet.schemaVersion ≠ 0
  transition : 0 < latest → packet.schemaVersion ≠ schema → packet.full = true

/-- The mutations a history with this content can record. -/
def Valid (options : HistoryOptions) (c : Content) (mutation : HistoryMutation) : Prop :=
  mutation.version = historyMutationVersion ∧
    match mutation.kind with
    | .append =>
      let stream := (c.streams mutation.packet.key).getD {}
      mutation.epoch = c.epoch ∧
        Fitting options c.epoch stream.latest stream.schema mutation.packet ∧
        (c.streams mutation.packet.key = none → 0 < options.maxStreams →
          (c.support.ncard : Int) < options.maxStreams)
    | .acknowledge =>
      mutation.epoch = c.epoch ∧
        ∃ stream, c.streams ⟨mutation.observer, mutation.stream⟩ = some stream ∧
          stream.acked < mutation.sequence ∧ mutation.sequence ≤ stream.latest
    | .rotateEpoch => mutation.epoch ≠ 0
    | .deleteStream | .deleteObserver | .sweepIdle => mutation.epoch = c.epoch

theorem checkPackets_congr {options} {epoch : Nat} (hkey : item.key = item'.key) :
    checkPackets options epoch item = checkPackets options epoch item' := by
  obtain ⟨hobserver, hstream⟩ := StreamKey.mk.inj hkey
  funext previous packets
  induction packets generalizing previous with
  | nil => rfl
  | cons packet rest ih => simp only [checkPackets, hobserver, hstream, ih]

variable {packet : Packet}

theorem placeFault_first (h : packet.full = false → packet.baseSequence + 1 = packet.sequence) :
    placeFault packet none = none :=
  if_neg fun hfault => hfault.2 (h hfault.1)

/-- The number and the schema of the last packet, or of the one before all. -/
def lastOf (previous : Option (Nat × Nat)) (packets : List Packet) : Option (Nat × Nat) :=
  (packets.getLast?.map fun packet => (packet.sequence, packet.schemaVersion)).or previous

section Check

variable {options : HistoryOptions} {epoch : Nat} {item : HistoryStreamSnapshot}

variable {previous : Option (Nat × Nat)} {packets : List Packet}

section

variable (h : checkPackets options epoch item previous packets = .ok ())
include h

theorem checkPackets_snoc (haccepted : Accepted options epoch item.key packet)
    (hplace : placeFault packet (lastOf previous packets) = none) :
    checkPackets options epoch item previous (packets ++ [packet]) = .ok () := by
  induction packets generalizing previous with
  | nil => exact checkPackets_cons.mpr ⟨haccepted, hplace, rfl⟩
  | cons first rest ih =>
    obtain ⟨hfirst, hfirstPlace, hrest⟩ := checkPackets_cons.mp h
    refine checkPackets_cons.mpr ⟨hfirst, hfirstPlace, ih hrest ?_⟩
    have hlast : lastOf previous (first :: rest) =
        lastOf (some (first.sequence, first.schemaVersion)) rest := by
      cases hrest : rest.getLast? <;> simp [lastOf, getLast?_cons, hrest]
    rwa [← hlast]

theorem accepted_of_checkPackets : ∀ packet ∈ packets, Accepted options epoch item.key packet := by
  induction packets generalizing previous with
  | nil => exact nofun
  | cons first rest ih =>
    obtain ⟨hfirst, -, hrest⟩ := checkPackets_cons.mp h
    exact forall_mem_cons.mpr ⟨hfirst, ih hrest⟩

theorem checkPackets_forget : checkPackets options epoch item none packets = .ok () := by
  cases packets with
  | nil => rfl
  | cons =>
    obtain ⟨hfirst, hplace, hrest⟩ := checkPackets_cons.mp h
    exact checkPackets_cons.mpr ⟨hfirst, placeFault_first (placeFault_none hplace).1, hrest⟩

end

theorem checkPackets_drop (h : checkPackets options epoch item none packets = .ok ()) (n : Nat) :
    checkPackets options epoch item none (packets.drop n) = .ok () := by
  induction n generalizing packets with
  | zero => exact h
  | succ n ih =>
    cases packets with
    | nil => rfl
    | cons =>
      obtain ⟨-, -, hrest⟩ := checkPackets_cons.mp h
      exact ih (checkPackets_forget hrest)

end Check

/-- A stream of a snapshot that `Import` accepts. -/
structure Sound (options : HistoryOptions) (epoch : Nat) (item : HistoryStreamSnapshot) :
    Prop where
  topic : item.stream.topic ≠ ""
  acked : item.acked ≤ item.latest
  emptied : item.packets = [] → item.acked = item.latest
  checked : checkPackets options epoch item none item.packets = .ok ()
  last : ∀ packet, item.packets.getLast? = some packet →
    packet.sequence = item.latest ∧ packet.schemaVersion = item.schema
  schema : 0 < item.latest → item.schema ≠ 0

def limit (options : HistoryOptions) : Nat := options.maxPacketsPerStream.toNat

def itemContent (options : HistoryOptions) (item : HistoryStreamSnapshot) : StreamContent :=
  ⟨item.latest, item.acked, item.schema, item.packets.rtake (limit options)⟩

/-- The options without the epoch, which only `NewHistory` looks at. -/
def settings (options : HistoryOptions) : HistoryOptions := { options with epoch := 0 }

variable (options : HistoryOptions) (epoch : Nat)

theorem checkPackets_settings (item : HistoryStreamSnapshot) :
    checkPackets options epoch item = checkPackets (settings options) epoch item := by
  funext previous packets
  induction packets generalizing previous with
  | nil => rfl
  | cons packet rest ih =>
    simp only [checkPackets, ih]
    rfl

theorem importStream_settings (now : Int) (item : HistoryStreamSnapshot) :
    importStream options epoch now item = importStream (settings options) epoch now item := by
  unfold importStream
  rw [checkPackets_settings]
  rfl

theorem importStreams_settings (now : Int) (index : Nat)
    (streams : AList fun _ : StreamKey => StreamState) (items : List HistoryStreamSnapshot) :
    importStreams options epoch now index streams items =
      importStreams (settings options) epoch now index streams items := by
  induction items generalizing index streams with
  | nil => rfl
  | cons item rest ih =>
    unfold importStreams
    rw [importStream_settings]
    simp only [ih]

/-- The options as `NewHistory` keeps them. -/
structure Normal (options : HistoryOptions) : Prop where
  retains : 0 < options.maxPacketsPerStream
  schema : options.schemaVersion ≠ 0

theorem drop_overflow {options} (hnormal : Normal options) (packets : List Packet) :
    packets.drop ((packets.length : Int) - options.maxPacketsPerStream).toNat =
      packets.rtake (limit options) := by
  have := hnormal.retains
  rw [limit]
  congr 1
  omega

section SoundStreams

variable {options : HistoryOptions} {epoch : Nat} {item : HistoryStreamSnapshot}

theorem Sound.fresh {key : StreamKey} (htopic : key.stream.topic ≠ "") :
    Sound options epoch { observer := key.observer, stream := key.stream } where
  topic := htopic
  acked := le_rfl
  emptied := fun _ => rfl
  checked := rfl
  last := nofun
  schema := nofun

theorem itemContent_replayAppend (packet : Packet) :
    itemContent options (replayAppend item packet) =
      (itemContent options item).append (limit options) packet := by
  simp only [itemContent, FileJournal.replayAppend, StreamContent.append, rtake_snoc_rtake]

variable (hsound : Sound options epoch item)
include hsound

theorem Sound.importStream (now : Int) :
    importStream options epoch now item = .ok (item.state options.maxPacketsPerStream now) := by
  have hschema : (item.state options.maxPacketsPerStream now).schema = item.schema := by
    show (item.packets.getLast?.map (·.schemaVersion)).getD item.schema = item.schema
    cases hlast : item.packets.getLast? with
    | none => rfl
    | some packet => exact (hsound.last packet hlast).2
  have hsequence : (item.packets.getLast?.any fun packet => packet.sequence ≠ item.latest) =
      false := by
    cases hlast : item.packets.getLast? with
    | none => rfl
    | some packet => simpa using (hsound.last packet hlast).1
  unfold SyncStream.importStream
  rw [if_neg, hsound.checked]
  · dsimp only
    rw [hsequence, if_neg Bool.false_ne_true, hschema,
      if_neg fun hzero => hsound.schema hzero.1 hzero.2]
  · rintro (hacked | ⟨-, hnil, hacked⟩)
    · exact absurd hsound.acked (not_le.mpr hacked)
    · exact hacked (hsound.emptied (eq_nil_of_length_eq_zero hnil))

theorem Sound.content_state (hnormal : Normal options) (now : Int) :
    streamContent (item.state options.maxPacketsPerStream now) = itemContent options item := by
  have hschema : (item.packets.getLast?.map (·.schemaVersion)).getD item.schema = item.schema := by
    cases hlast : item.packets.getLast? with
    | none => rfl
    | some packet => exact (hsound.last packet hlast).2
  simp only [streamContent, HistoryStreamSnapshot.state, itemContent, hschema,
    drop_overflow hnormal]

theorem Sound.numbered : ∃ start, Numbered Packet.sequence start item.packets :=
  (checkPackets_ok hsound.checked).2

theorem Sound.of_drop (n : Nat) (hkey : item'.key = item.key) (hlatest : item'.latest = item.latest)
    (hschema : item'.schema = item.schema) (hpackets : item'.packets = item.packets.drop n)
    (hacked : item'.acked ≤ item'.latest)
    (hemptied : item'.packets = [] → item'.acked = item'.latest) :
    Sound options epoch item' where
  topic := by
    rw [(StreamKey.mk.inj hkey).2]
    exact hsound.topic
  acked := hacked
  emptied := hemptied
  checked := by
    rw [checkPackets_congr hkey, hpackets]
    exact checkPackets_drop hsound.checked n
  last := by
    intro packet hlast
    rw [hpackets, getLast?_drop] at hlast
    split_ifs at hlast
    rw [hlatest, hschema]
    exact hsound.last packet hlast
  schema := by
    rw [hlatest, hschema]
    exact hsound.schema

theorem Sound.replayAppend (hkey : packet.key = item.key)
    (hfitting : Fitting options epoch item.latest item.schema packet) :
    Sound options epoch (replayAppend item packet) where
  topic := hsound.topic
  acked := by
    have hacked := hsound.acked
    have hsequence := hfitting.sequence
    show item.acked ≤ packet.sequence
    omega
  emptied := by simp [FileJournal.replayAppend]
  checked := by
    have hlink : packet.full = false → packet.baseSequence = item.latest := by
      intro hdelta
      rw [hfitting.base, hdelta]
      rfl
    have hsequence := hfitting.sequence
    rw [checkPackets_congr (show (FileJournal.replayAppend item packet).key = item.key from rfl)]
    refine checkPackets_snoc hsound.checked ⟨hkey, hfitting.epoch, ?_, hfitting.schemaVersion,
      hfitting.payload, ?_⟩ ?_
    · omega
    · intro hfull
      rw [hfitting.base, hfull]
      rfl
    · cases hlast : item.packets.getLast? with
      | none =>
        simp only [lastOf, hlast, Option.map_none, Option.none_or]
        apply placeFault_first
        intro hdelta
        rw [hlink hdelta, hsequence]
      | some previous =>
        obtain ⟨hprevious, hschema⟩ := hsound.last previous hlast
        have hzero := (accepted_of_checkPackets hsound.checked previous
          (mem_of_getLast? hlast)).sequence
        simp only [lastOf, hlast, Option.map_some, Option.some_or, placeFault]
        rw [if_neg, if_neg]
        · rintro ⟨hchange, hdelta⟩
          rw [hfitting.transition (by omega) (hschema ▸ hchange)] at hdelta
          cases hdelta
        · rintro (hnumber | ⟨hdelta, hbase⟩)
          · omega
          · exact hbase (by rw [hlink hdelta, hprevious])
  last := by
    intro last hlast
    rw [FileJournal.replayAppend, getLast?_concat] at hlast
    cases hlast
    exact ⟨rfl, rfl⟩
  schema := fun _ => hfitting.schemaVersion

theorem Sound.replayAcknowledge {sequence : Nat}
    (prune : Bool) (hacked : item.acked < sequence) (hlatest : sequence ≤ item.latest) :
    Sound options epoch (replayAcknowledge item prune sequence) := by
  obtain ⟨start, hnumbered⟩ := hsound.numbered
  have hne : item.packets ≠ [] := fun hnil => by
    have := hsound.emptied hnil
    omega
  cases prune with
  | false =>
    exact hsound.of_drop 0 rfl rfl rfl rfl hlatest fun hnil => absurd hnil hne
  | true =>
    refine hsound.of_drop (sequence - start) rfl rfl rfl
      (hnumbered.dropWhile_eq_drop sequence) hlatest ?_
    intro hnil
    have hlast := getLast?_eq_some_getLast hne
    generalize item.packets.getLast hne = packet at hlast
    have hall := dropWhile_eq_nil_iff.mp hnil packet (mem_of_getLast? hlast)
    have hsequence := (hsound.last packet hlast).1
    simp only [decide_eq_true_eq] at hall
    exact le_antisymm hlatest (hsequence ▸ hall)

theorem Sound.content_replayAcknowledge (prune : Bool) (sequence : Nat) :
    itemContent options (FileJournal.replayAcknowledge item prune sequence) =
      (itemContent options item).acknowledge prune sequence := by
  obtain ⟨start, hnumbered⟩ := hsound.numbered
  cases prune with
  | false => rfl
  | true =>
    simp only [itemContent, FileJournal.replayAcknowledge, StreamContent.acknowledge, if_true,
      hnumbered.rtake_dropWhile]

end SoundStreams

end CubeCore.HistoryContent
