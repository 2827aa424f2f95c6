import CubeCore.HistoryContent

namespace CubeCore.SnapshotContent

open FileJournal HistoryContent SyncStream List Function AList

section Lists

variable {items : List HistoryStreamSnapshot} {key key' : StreamKey}

theorem findStream_cons (key : StreamKey) (item : HistoryStreamSnapshot)
    (items : List HistoryStreamSnapshot) :
    findStream key (item :: items) =
      if item.key = key then some item else findStream key items := by
  unfold findStream
  split <;> simp_all

variable {item : HistoryStreamSnapshot}

theorem findStream_some (h : findStream key items = some item) : item ∈ items ∧ item.key = key :=
  ⟨mem_of_find?_eq_some h, by simpa using find?_some h⟩

theorem findStream_none : findStream key items = none ↔ ∀ item ∈ items, item.key ≠ key := by
  simp [findStream]

theorem findStream_of_mem (hnodup : (items.map (·.key)).Nodup) (hmem : item ∈ items) :
    findStream item.key items = some item := by
  induction items with
  | nil => cases hmem
  | cons first rest ih =>
    rw [findStream_cons]
    obtain ⟨hnew, hrest⟩ := nodup_cons.mp hnodup
    rcases mem_cons.mp hmem with rfl | hmem
    · exact if_pos rfl
    · rw [if_neg, ih hrest hmem]
      intro heq
      exact hnew (mem_map.mpr ⟨item, hmem, heq.symm⟩)

theorem findStream_append (key : StreamKey) (items items' : List HistoryStreamSnapshot) :
    findStream key (items ++ items') = (findStream key items).or (findStream key items') :=
  find?_append

section Update

variable {f : HistoryStreamSnapshot → HistoryStreamSnapshot}
  (hf : ∀ item, (f item).key = item.key)

include hf

theorem findStream_updateFirst :
    findStream key' (updateFirst key f items) =
      if key' = key then (findStream key items).map f else findStream key' items := by
  induction items with
  | nil => simp [updateFirst, findStream]
  | cons item rest ih =>
    unfold updateFirst
    rcases eq_or_ne item.key key with hitem | hitem
    · rw [if_pos hitem, findStream_cons, findStream_cons, findStream_cons, hf, hitem]
      rcases eq_or_ne key' key with rfl | hne
      · simp
      · rw [if_neg hne.symm, if_neg hne, if_neg hne.symm]
    rw [if_neg hitem, findStream_cons, findStream_cons, findStream_cons, ih, if_neg hitem]
    rcases eq_or_ne key' key with rfl | hne
    · rw [if_neg hitem, if_pos rfl, if_pos rfl]
    · rw [if_neg hne, if_neg hne]

theorem map_key_updateFirst : (updateFirst key f items).map (·.key) = items.map (·.key) := by
  induction items with
  | nil => rfl
  | cons item rest ih =>
    unfold updateFirst
    split
    · simp [hf]
    · simp [ih]

end Update

theorem length_updateFirst (key : StreamKey) (f : HistoryStreamSnapshot → HistoryStreamSnapshot)
    (items : List HistoryStreamSnapshot) : (updateFirst key f items).length = items.length := by
  induction items with
  | nil => rfl
  | cons item rest ih =>
    unfold updateFirst
    split
    · rfl
    · simp [ih]

theorem mem_updateFirst {f} (h : item ∈ updateFirst key f items) :
    item ∈ items ∨ ∃ old, findStream key items = some old ∧ item = f old := by
  induction items with
  | nil => exact .inl h
  | cons first rest ih =>
    rw [findStream_cons]
    unfold updateFirst at h
    split_ifs at h with hkey
    · rw [if_pos hkey]
      rcases mem_cons.mp h with rfl | h
      · exact .inr ⟨first, rfl, rfl⟩
      · exact .inl (mem_cons_of_mem _ h)
    rw [if_neg hkey]
    rcases mem_cons.mp h with rfl | h
    · exact .inl mem_cons_self
    · exact (ih h).imp (mem_cons_of_mem _) id

theorem removeFirst_eq_filter (hnodup : (items.map (·.key)).Nodup) :
    removeFirst key items = items.filter fun item => item.key ≠ key := by
  induction items with
  | nil => rfl
  | cons first rest ih =>
    obtain ⟨hnew, hrest⟩ := nodup_cons.mp hnodup
    unfold removeFirst at ih ⊢
    rcases eq_or_ne first.key key with rfl | hne
    · rw [eraseP_cons_of_pos (by simp), filter_cons_of_neg (by simp)]
      refine (filter_eq_self.mpr ?_).symm
      intro item hmem
      simp only [decide_eq_true_eq]
      rintro hkey
      exact hnew (mem_map.mpr ⟨item, hmem, hkey⟩)
    · rw [eraseP_cons_of_neg (by simpa using hne),
        filter_cons_of_pos (by simpa using hne), ih hrest]

end Lists

/-- The streams of a snapshot, and what they hold. -/
structure Holds (options : HistoryOptions) (epoch : Nat) (items : List HistoryStreamSnapshot)
    (streams : StreamKey → Option StreamContent) : Prop where
  nodup : (items.map (·.key)).Nodup
  sound : ∀ item ∈ items, Sound options epoch item
  streams : ∀ key, streams key = (findStream key items).map (itemContent options)

section Streams

variable {options : HistoryOptions} {epoch : Nat} {items : List HistoryStreamSnapshot}
  {streams : StreamKey → Option StreamContent}

theorem Holds.nil : Holds options epoch [] fun _ => none where
  nodup := nodup_nil
  sound := nofun
  streams _ := rfl

theorem length_removeAll_le (keys : List StreamKey) (items : List HistoryStreamSnapshot) :
    (keys.foldl (fun items key => removeFirst key items) items).length ≤ items.length := by
  induction keys generalizing items with
  | nil => exact le_rfl
  | cons key keys ih => exact (ih _).trans (length_eraseP_le ..)

variable (hholds : Holds options epoch items streams)
include hholds

theorem Holds.update {item f} (hf : ∀ item, (f item).key = item.key)
    (hitem : findStream key items = some item) (hsound : Sound options epoch (f item)) :
    Holds options epoch (updateFirst key f items)
      (Function.update streams key (some (itemContent options (f item)))) where
  nodup := by
    rw [map_key_updateFirst hf]
    exact hholds.nodup
  sound := by
    intro new hmem
    rcases mem_updateFirst hmem with hold | ⟨old, hold, rfl⟩
    · exact hholds.sound new hold
    · rw [hitem] at hold
      cases hold
      exact hsound
  streams := by
    intro key'
    rw [findStream_updateFirst hf, update_apply]
    split
    · rw [hitem]
      rfl
    · exact hholds.streams key'

theorem Holds.snoc {item} (hnew : findStream item.key items = none)
    (hsound : Sound options epoch item) :
    Holds options epoch (items ++ [item])
      (Function.update streams item.key (some (itemContent options item))) where
  nodup := by
    rw [map_append]
    refine nodup_append.mpr ⟨hholds.nodup, nodup_singleton _, ?_⟩
    rintro key hmem _ hlast rfl
    obtain ⟨old, hold, rfl⟩ := mem_map.mp hmem
    exact findStream_none.mp hnew old hold (mem_singleton.mp hlast)
  sound := by
    rw [forall_mem_append, forall_mem_singleton]
    exact ⟨hholds.sound, hsound⟩
  streams := by
    intro key
    rw [findStream_append, findStream_cons, update_apply]
    rcases eq_or_ne key item.key with rfl | hne
    · rw [hnew, if_pos rfl, if_pos rfl]
      rfl
    · rw [if_neg hne, if_neg hne.symm, hholds.streams key]
      simp [findStream]

theorem Holds.filter (p : StreamKey → Bool) :
    Holds options epoch (items.filter fun item => p item.key)
      fun key => if p key = true then streams key else none where
  nodup := hholds.nodup.sublist (filter_sublist.map _)
  sound item hmem := hholds.sound item (mem_of_mem_filter hmem)
  streams := by
    intro key
    split_ifs with hkey
    · rw [hholds.streams key, findStream, findStream, find?_filter]
      congr 2
      funext item
      rcases eq_or_ne item.key key with rfl | hne
      · simp [hkey]
      · simp [hne]
    have hnone : findStream key (items.filter fun item => p item.key) = none := by
      rw [findStream_none]
      rintro item hmem rfl
      exact hkey (mem_filter.mp hmem).2
    rw [hnone]
    rfl

theorem Holds.remove (key : StreamKey) :
    Holds options epoch (removeFirst key items)
      fun key' => if key' = key then none else streams key' := by
  rw [removeFirst_eq_filter hholds.nodup]
  have hfilter := hholds.filter fun key' => decide (key' ≠ key)
  simpa only [decide_eq_true_eq, ite_not] using hfilter

theorem Holds.removeAll (keys : List StreamKey) :
    Holds options epoch (keys.foldl (fun items key => removeFirst key items) items)
      fun key' => if key' ∈ keys then none else streams key' := by
  induction keys generalizing items streams with
  | nil => simpa using hholds
  | cons key keys ih =>
    have hrest := ih (hholds.remove key)
    rw [foldl_cons]
    convert hrest using 2 with key'
    rcases eq_or_ne key' key with rfl | hne
    · simp
    · simp [hne]

theorem Holds.ncard_support : {key | (streams key).isSome}.ncard = items.length := by
  have hset : {key | (streams key).isSome} = ((items.map (·.key)).toFinset : Set StreamKey) := by
    ext key
    rw [Set.mem_ofPred_eq, hholds.streams key, coe_toFinset, Set.mem_ofPred_eq, mem_map,
      Option.isSome_map]
    constructor
    · intro hsome
      obtain ⟨item, hitem⟩ := Option.isSome_iff_exists.mp hsome
      exact ⟨item, findStream_some hitem⟩
    · rintro ⟨item, hmem, rfl⟩
      rw [findStream_of_mem hholds.nodup hmem]
      rfl
  rw [hset, Set.ncard_coe_finset, toFinset_card_of_nodup hholds.nodup, length_map]

end Streams

/-- A snapshot that `Import` accepts, and the content it brings. -/
structure Rel (options : HistoryOptions) (snapshot : HistorySnapshot) (c : Content) : Prop where
  version : snapshot.version = historySnapshotVersion
  epoch : snapshot.epoch = c.epoch
  epoch_ne_zero : c.epoch ≠ 0
  few : 0 < options.maxStreams → (snapshot.streams.length : Int) ≤ options.maxStreams
  holds : Holds options c.epoch snapshot.streams c.streams

variable {epoch : Nat}

theorem rel_blank (options : HistoryOptions) (hepoch : epoch ≠ 0) :
    Rel options ⟨historySnapshotVersion, epoch, []⟩ (.blank epoch) where
  version := rfl
  epoch := rfl
  epoch_ne_zero := hepoch
  few := fun hmax => le_of_lt hmax
  holds := .nil

section Replay

variable {options : HistoryOptions} {snapshot : HistorySnapshot} {c : Content}
  {mutation : HistoryMutation}

/-- The streams in which `replayHistoryMutation` looks for the stream of a packet. -/
def openStream (key : StreamKey) (items : List HistoryStreamSnapshot) :
    List HistoryStreamSnapshot :=
  if (findStream key items).isNone then
    items ++ [{ observer := key.observer, stream := key.stream }]
  else items

section

variable (hrel : Rel options snapshot c)
include hrel

theorem rel_openStream (htopic : key.stream.topic ≠ "")
    (hroom : c.streams key = none → 0 < options.maxStreams →
      (c.support.ncard : Int) < options.maxStreams) :
    ∃ item, findStream key (openStream key snapshot.streams) = some item ∧
      itemContent options item = (c.streams key).getD {} ∧
      Holds options c.epoch (openStream key snapshot.streams)
        (Function.update c.streams key (some (itemContent options item))) ∧
      (0 < options.maxStreams →
        ((openStream key snapshot.streams).length : Int) ≤ options.maxStreams) := by
  have hstream := hrel.holds.streams key
  unfold openStream
  cases hfind : findStream key snapshot.streams with
  | some item =>
    rw [hfind, Option.map_some] at hstream
    refine ⟨item, hfind, by rw [hstream]; rfl, ?_, hrel.few⟩
    rw [← hstream, update_eq_self]
    exact hrel.holds
  | none =>
    rw [hfind] at hstream
    have hfresh : Sound options c.epoch { observer := key.observer, stream := key.stream } :=
      .fresh htopic
    refine ⟨{ observer := key.observer, stream := key.stream }, ?_, ?_,
      hrel.holds.snoc hfind hfresh, ?_⟩
    · rw [Option.isNone_none, if_pos rfl, findStream_append, hfind, findStream_cons]
      exact if_pos rfl
    · rw [hstream]
      simp [itemContent]
    · intro hmax
      have hcard := hrel.holds.ncard_support
      have hroom := hroom hstream hmax
      rw [Content.support] at hroom
      rw [Option.isNone_none, if_pos rfl, length_append, length_singleton]
      omega

theorem rel_streams (hlength : items.length ≤ snapshot.streams.length)
    (hholds : Holds options c.epoch items streams) :
    Rel options { snapshot with streams := items } { c with streams } where
  __ := hrel
  few := by
    intro hmax
    have hfew := hrel.few hmax
    show (items.length : Int) ≤ _
    omega
  holds := hholds

theorem rel_replay_append (hkind : mutation.kind = .append) (hvalid : Valid options c mutation) :
    ∃ snapshot', replayKind snapshot mutation = .ok snapshot' ∧
      Rel options snapshot' (c.apply (limit options) mutation) := by
  simp only [Valid, hkind] at hvalid
  obtain ⟨-, -, hfitting, hroom⟩ := hvalid
  obtain ⟨item, hfind, hcontent, hholds, hfew⟩ := rel_openStream hrel hfitting.topic hroom
  rw [← hcontent] at hfitting
  have hkey := (findStream_some hfind).2
  have hsound := hholds.sound item (findStream_some hfind).1
  have hsequence : mutation.packet.sequence = item.latest + 1 := hfitting.sequence
  have hreplay : replayKind snapshot mutation = .ok
      { snapshot with
        streams := updateFirst mutation.packet.key (replayAppend · mutation.packet)
          (openStream mutation.packet.key snapshot.streams) } := by
    simp only [replayKind, hkind]
    rw [show (if (findStream mutation.packet.key snapshot.streams).isNone = true then _ else _) =
      openStream mutation.packet.key snapshot.streams from rfl, hfind]
    exact if_neg (not_not.mpr hsequence)
  refine ⟨_, hreplay, hrel.version, ?_, ?_, ?_, ?_⟩
  · simpa only [Content.apply, hkind] using hrel.epoch
  · simpa only [Content.apply, hkind] using hrel.epoch_ne_zero
  · rwa [length_updateFirst]
  · have happended := hholds.update (f := (replayAppend · mutation.packet)) (fun _ => rfl) hfind
      (hsound.replayAppend hkey.symm hfitting)
    rw [update_idem, itemContent_replayAppend, hcontent] at happended
    simpa only [Content.apply, hkind] using happended

theorem rel_replay_acknowledge (hkind : mutation.kind = .acknowledge)
    (hvalid : Valid options c mutation) :
    ∃ snapshot', replayKind snapshot mutation = .ok snapshot' ∧
      Rel options snapshot' (c.apply (limit options) mutation) := by
  simp only [Valid, hkind] at hvalid
  obtain ⟨-, -, stream, hstream, hacked, hlatest⟩ := hvalid
  have hcontent := hrel.holds.streams ⟨mutation.observer, mutation.stream⟩
  rw [hstream] at hcontent
  obtain ⟨item, hfind, rfl⟩ := Option.map_eq_some_iff.mp hcontent.symm
  have hsound := hrel.holds.sound item (findStream_some hfind).1
  have hacked : item.acked < mutation.sequence := hacked
  have hlatest : mutation.sequence ≤ item.latest := hlatest
  have hreplay : replayKind snapshot mutation = .ok
      { snapshot with
        streams := updateFirst ⟨mutation.observer, mutation.stream⟩
          (replayAcknowledge · mutation.pruneAcknowledged mutation.sequence)
          snapshot.streams } := by
    simp only [replayKind, hkind, hfind]
    rw [if_neg (not_lt.mpr hlatest), if_pos hacked]
  refine ⟨_, hreplay, ?_⟩
  simp only [Content.apply, hkind, hstream, Option.map_some]
  refine rel_streams hrel (length_updateFirst ..).le ?_
  rw [← hsound.content_replayAcknowledge]
  exact hrel.holds.update (fun _ => rfl) hfind
    (hsound.replayAcknowledge mutation.pruneAcknowledged hacked hlatest)

theorem rel_replayKind (hvalid : Valid options c mutation) :
    ∃ snapshot', replayKind snapshot mutation = .ok snapshot' ∧
      Rel options snapshot' (c.apply (limit options) mutation) := by
  cases hkind : mutation.kind with
  | append => exact rel_replay_append hrel hkind hvalid
  | acknowledge => exact rel_replay_acknowledge hrel hkind hvalid
  | deleteStream =>
    refine ⟨_, by simp only [replayKind, hkind]; rfl, ?_⟩
    simp only [Content.apply, hkind]
    exact rel_streams hrel (length_eraseP_le ..) (hrel.holds.remove _)
  | deleteObserver =>
    refine ⟨_, by simp only [replayKind, hkind]; rfl, ?_⟩
    simp only [Content.apply, hkind]
    have hfilter := hrel.holds.filter fun key => decide (key.observer ≠ mutation.observer)
    simp only [decide_eq_true_eq, ite_not] at hfilter
    exact rel_streams hrel (length_filter_le ..) hfilter
  | sweepIdle =>
    refine ⟨_, by simp only [replayKind, hkind]; rfl, ?_⟩
    simp only [Content.apply, hkind]
    exact rel_streams hrel (length_removeAll_le ..) (hrel.holds.removeAll _)
  | rotateEpoch =>
    simp only [Valid, hkind] at hvalid
    refine ⟨{ snapshot with epoch := mutation.epoch, streams := [] },
      by simp only [replayKind, hkind], ?_⟩
    simp only [Content.apply, hkind]
    exact ⟨hrel.version, rfl, hvalid.2, fun hmax => le_of_lt hmax, .nil⟩

end

theorem valid_epoch (hvalid : Valid options c mutation) (hkind : mutation.kind ≠ .rotateEpoch) :
    mutation.epoch = c.epoch := by
  unfold Valid at hvalid
  cases hcase : mutation.kind <;> simp only [hcase] at hvalid
  · exact hvalid.2.1
  · exact hvalid.2.1
  · exact hvalid.2
  · exact hvalid.2
  · exact hvalid.2
  · exact absurd hcase hkind

theorem rel_replay (hrel : Rel options snapshot c) (hvalid : Valid options c mutation) :
    ∃ snapshot', replayHistoryMutation snapshot mutation = .ok snapshot' ∧
      Rel options snapshot' (c.apply (limit options) mutation) := by
  obtain ⟨snapshot', hreplay, hrel'⟩ := rel_replayKind hrel hvalid
  refine ⟨snapshot', ?_, hrel'⟩
  unfold replayHistoryMutation
  rw [if_neg (not_not.mpr hvalid.1)]
  rcases eq_or_ne mutation.kind .rotateEpoch with hkind | hkind
  · rw [if_pos hkind]
    simpa only [replayKind, hkind] using hreplay
  have hne := hrel.epoch_ne_zero
  rw [← hrel.epoch] at hne
  have hepoch :
  mutation.epoch = snapshot.epoch := (valid_epoch hvalid hkind).trans hrel.epoch.symm
  rw [if_neg hkind]
  simpa only [if_neg hne, hepoch, ne_eq, not_true_eq_false, if_false] using hreplay

theorem replayHistoryMutation_zero (hvalid : Valid options (.blank epoch) mutation) :
    replayHistoryMutation ⟨historySnapshotVersion, 0, []⟩ mutation =
      replayHistoryMutation ⟨historySnapshotVersion, epoch, []⟩ mutation := by
  unfold replayHistoryMutation
  split
  · rfl
  split
  · rfl
  rename_i hkind
  have hsame : mutation.epoch = epoch := valid_epoch hvalid hkind
  simp only [if_true, hsame, ite_self]

end Replay

variable {options : HistoryOptions}

theorem importStreams_ok (now : Int) (index : Nat)
    (streams : AList fun _ : StreamKey => StreamState)
    (hsound : ∀ item ∈ items, Sound options epoch item) (hnodup : (items.map (·.key)).Nodup)
    (hnew : ∀ item ∈ items, streams.lookup item.key = none) :
    ∃ streams', importStreams options epoch now index streams items = .ok streams' ∧
      ∀ key, streams'.lookup key =
        ((findStream key items).map (·.state options.maxPacketsPerStream now)).or
          (streams.lookup key) := by
  induction items generalizing index streams with
  | nil => exact ⟨streams, rfl, fun _ => rfl⟩
  | cons item rest ih =>
    obtain ⟨hitem, hrest⟩ := forall_mem_cons.mp hsound
    obtain ⟨hfirst, hnodup⟩ := nodup_cons.mp hnodup
    obtain ⟨hnone, hnew⟩ := forall_mem_cons.mp hnew
    obtain ⟨streams', hstreams', hlookup⟩ := ih (index + 1)
      (streams.insert item.key (item.state options.maxPacketsPerStream now)) hrest hnodup (by
        intro other hmem
        rw [lookup_insert_ne, hnew other hmem]
        intro heq
        exact hfirst (mem_map.mpr ⟨other, hmem, heq⟩))
    refine ⟨streams', ?_, ?_⟩
    · unfold importStreams
      rw [if_neg hitem.topic, if_neg]
      · rw [hitem.importStream]
        exact hstreams'
      · rw [show streams.lookup ⟨item.observer, item.stream⟩ = none from hnone]
        exact Bool.false_ne_true
    intro key
    rw [hlookup, findStream_cons]
    rcases eq_or_ne key item.key with rfl | hne
    · have hfind : findStream item.key rest = none := by
        rw [findStream_none]
        intro other hmem heq
        exact hfirst (mem_map.mpr ⟨other, hmem, heq⟩)
      rw [hfind, if_pos rfl, lookup_insert]
      rfl
    · rw [if_neg hne.symm, lookup_insert_ne hne]

variable {J : Type}

theorem rel_import (hrel : Rel options snapshot c) (hnormal : Normal options)
    (hoptions : settings h.options = options) (now : Int) :
    ∃ h', importSnapshot h snapshot now = (h', .ok ()) ∧ settings h'.options = options ∧
      contentOf h' = c := by
  obtain ⟨streams, hstreams, hlookup⟩ := importStreams_ok now 0 ∅ hrel.holds.sound
    hrel.holds.nodup fun item _ => lookup_empty item.key
  subst hoptions
  refine ⟨{ h with streams, epoch := snapshot.epoch }, ?_, rfl, ?_⟩
  · unfold importSnapshot
    rw [if_neg (not_not.mpr hrel.version), if_neg, if_neg, hrel.epoch,
      importStreams_settings, hstreams]
    · exact fun hfew => absurd (hrel.few hfew.1) (not_le.mpr hfew.2)
    · rw [hrel.epoch]
      exact hrel.epoch_ne_zero
  obtain ⟨epoch, contents⟩ := c
  have hepoch : snapshot.epoch = epoch := hrel.epoch
  have hcontents : (fun key => (streams.lookup key).map streamContent) = contents := by
    funext key
    rw [hlookup, lookup_empty, show contents key = _ from hrel.holds.streams key]
    cases hfind : findStream key snapshot.streams with
    | none => rfl
    | some item =>
      have hsound := hrel.holds.sound item (findStream_some hfind).1
      exact congrArg some (hsound.content_state hnormal now)
  simp only [contentOf, hepoch, hcontents]

theorem findStream_exports (h : History J)
    (hperm : items.Perm (h.streams.entries.map fun entry => exportStream entry.1 entry.2)) :
    (items.map (·.key)).Nodup ∧
      ∀ key, findStream key items = (h.streams.lookup key).map (exportStream key) := by
  have hkeys : (h.streams.entries.map fun entry => exportStream entry.1 entry.2).map (·.key) =
      h.streams.keys := by
    rw [map_map]
    rfl
  have hnodup : (items.map (·.key)).Nodup := by
    rw [(hperm.map _).nodup_iff, hkeys]
    exact h.streams.nodupKeys
  refine ⟨hnodup, ?_⟩
  intro key
  cases hlookup : h.streams.lookup key with
  | none =>
    rw [Option.map_none, findStream_none]
    rintro item hmem rfl
    obtain ⟨entry, hentry, rfl⟩ := mem_map.mp (hperm.mem_iff.mp hmem)
    have hmem : entry.2 ∈ h.streams.lookup entry.1 := mem_lookup_iff.mpr hentry
    have hnone : h.streams.lookup entry.1 = none := hlookup
    rw [hnone] at hmem
    cases hmem
  | some state =>
    have hentry : ⟨key, state⟩ ∈ h.streams.entries := mem_lookup_iff.mp (Option.mem_def.mpr hlookup)
    have hmem : exportStream key state ∈ items :=
      hperm.mem_iff.mpr (mem_map.mpr ⟨⟨key, state⟩, hentry, rfl⟩)
    exact findStream_of_mem hnodup hmem

theorem rel_export (hrel : Rel options snapshot (contentOf h)) (hnormal : Normal options) :
    Rel options (exportLocked h) (contentOf h) := by
  have hperm : (exportLocked h).streams.Perm
      (h.streams.entries.map fun entry => exportStream entry.1 entry.2) :=
    perm_insertionSort _ _
  obtain ⟨hnodup, hfind⟩ := findStream_exports h hperm
  have hitem : ∀ key state, h.streams.lookup key = some state →
      ∃ item, item ∈ snapshot.streams ∧ item.key = key ∧
        itemContent options item = streamContent state := by
    intro key state hlookup
    have hcontent : (contentOf h).streams key = some (streamContent state) := by
      rw [contentOf_streams, hlookup]
      rfl
    rw [hrel.holds.streams key] at hcontent
    obtain ⟨item, hitem, hsame⟩ := Option.map_eq_some_iff.mp hcontent
    exact ⟨item, (findStream_some hitem).1, (findStream_some hitem).2, hsame⟩
  have hpositive : 0 < limit options := by
    have := hnormal.retains
    rw [limit]
    omega
  have hsoundOf : ∀ key state, h.streams.lookup key = some state →
      Sound options (contentOf h).epoch (exportStream key state) ∧
        itemContent options (exportStream key state) = streamContent state := by
    intro key state hlookup
    obtain ⟨item, hmem, rfl, hsame⟩ := hitem key state hlookup
    simp only [itemContent, streamContent, StreamContent.mk.injEq] at hsame
    obtain ⟨hlatest, hacked, hschema, hitems⟩ := hsame
    have hsound := hrel.holds.sound item hmem
    constructor
    · refine hsound.of_drop (item.packets.length - limit options) rfl hlatest.symm hschema.symm
        hitems.symm ?_ ?_
      · show state.acked ≤ state.latest
        rw [← hacked, ← hlatest]
        exact hsound.acked
      intro hnil
      have hnil : state.items = [] := hnil
      show state.acked = state.latest
      rw [← hacked, ← hlatest]
      apply hsound.emptied
      rw [hnil, rtake, drop_eq_nil_iff] at hitems
      exact eq_nil_of_length_eq_zero (by omega)
    · simp only [itemContent, streamContent, exportStream, StreamContent.mk.injEq, true_and]
      rw [← hitems]
      simp only [rtake, drop_drop, length_drop]
      congr 1
      omega
  have hholds : Holds options (contentOf h).epoch (exportLocked h).streams
      (contentOf h).streams := by
    refine ⟨hnodup, ?_, ?_⟩
    · intro item hmem
      obtain ⟨entry, hentry, rfl⟩ := mem_map.mp (hperm.mem_iff.mp hmem)
      exact (hsoundOf entry.1 entry.2 (mem_lookup_iff.mpr hentry)).1
    intro key
    rw [hfind, contentOf_streams]
    cases hlookup : h.streams.lookup key with
    | none => rfl
    | some state => exact congrArg some (hsoundOf key state hlookup).2.symm
  refine ⟨rfl, rfl, hrel.epoch_ne_zero, ?_, hholds⟩
  intro hmax
  rw [← hholds.ncard_support, hrel.holds.ncard_support]
  exact hrel.few hmax

end CubeCore.SnapshotContent
