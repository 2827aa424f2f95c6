import CubeCore.HistoryContent

namespace CubeCore.HistoryEffects

open FileJournal HistoryContent SyncStream Function AList

variable {J : Type}

theorem streamContent_getD (h : History J) (key : StreamKey) :
    ((contentOf h).streams key).getD {} = streamContent ((h.streams.lookup key).getD {}) := by
  rw [contentOf_streams]
  cases h.streams.lookup key <;> rfl

theorem lookup_eraseAll (streams : AList fun _ : StreamKey => StreamState)
    (keys : List StreamKey) (key : StreamKey) :
    (eraseAll streams keys).lookup key = if key ∈ keys then none else streams.lookup key := by
  induction keys generalizing streams with
  | nil => rfl
  | cons first keys ih =>
    have hrest := ih (streams.erase first)
    show (eraseAll (streams.erase first) keys).lookup key = _
    rw [hrest]
    rcases eq_or_ne key first with rfl | hne
    · simp [lookup_erase]
    · simp [hne, lookup_erase_ne hne]

variable {streams : AList fun _ : StreamKey => StreamState}

theorem ncard_support (h : History J) : (contentOf h).support.ncard = h.streams.entries.length := by
  have hset : (contentOf h).support = (h.streams.keys.toFinset : Set StreamKey) := by
    ext key
    rw [List.coe_toFinset, Content.support, Set.mem_ofPred_eq,
      contentOf_streams, Option.isSome_map, lookup_isSome]
    rfl
  have hnodup : h.streams.keys.Nodup := h.streams.nodupKeys
  rw [hset, Set.ncard_coe_finset, List.toFinset_card_of_nodup hnodup]
  exact List.length_map ..

variable {h₁ : History J}

theorem contentOf_insert (h : History J) (key : StreamKey) (state : StreamState) :
    contentOf { h with streams := h.streams.insert key state } =
      { contentOf h with
        streams := update (contentOf h).streams key (some (streamContent state)) } := by
  have hcontents : (fun key' => ((h.streams.insert key state).lookup key').map streamContent) =
      update (contentOf h).streams key (some (streamContent state)) := by
    funext key'
    rw [update_apply]
    split_ifs with hne
    · rw [hne, lookup_insert]
      rfl
    · rw [lookup_insert_ne hne, contentOf_streams]
  rw [← hcontents]
  rfl

theorem contentOf_remove {h : History J} [DecidablePred p]
    (hstreams : ∀ key, streams.lookup key = if p key then none else h.streams.lookup key) :
    contentOf { h with streams } =
      { contentOf h with
        streams := fun key => if p key then none else (contentOf h).streams key } := by
  have hcontents : (fun key => (streams.lookup key).map streamContent) =
      fun key => if p key then none else (contentOf h).streams key := by
    funext key
    rw [hstreams]
    split
    · rfl
    · rfl
  rw [← hcontents]
  rfl

inductive Effect (ops : HistoryJournal J) (h h' : History J) (err : Option HistoryError) : Prop
  | silent : h'.options = h.options → h'.journal = h.journal → contentOf h' = contentOf h →
      Effect ops h h' err
  | refused {mutation : HistoryMutation} {text : String} {h₁ : History J} :
      h'.options = h.options → Valid (settings h.options) (contentOf h) mutation →
      SyncStream.record ops h mutation = (some text, h₁) → h'.journal = h₁.journal →
      contentOf h' = contentOf h → err = some (.journal text) → Effect ops h h' err
  | done {mutation : HistoryMutation} {h₁ : History J} :
      h'.options = h.options → Valid (settings h.options) (contentOf h) mutation →
      SyncStream.record ops h mutation = (none, h₁) → h'.journal = h₁.journal →
      contentOf h' = (contentOf h).apply (limit h.options) mutation → err = none →
      Effect ops h h' err

variable {ops : HistoryJournal J} {h : History J}

theorem Effect.same (err : Option HistoryError) : Effect ops h h err := .silent rfl rfl rfl

theorem Effect.of_refused (hvalid : Valid (settings h.options) (contentOf h) mutation)
    (hrecord : SyncStream.record ops h mutation = (some text, h₁)) :
    Effect ops h h₁ (some (.journal text)) := by
  obtain ⟨_, rfl⟩ := record_eq hrecord
  exact .refused rfl hvalid hrecord rfl rfl rfl

theorem streamContent_push (hnormal : Normal options) (state : StreamState) (packet : Packet)
    (now : Int) :
    streamContent (state.push options.maxPacketsPerStream packet now) =
      (streamContent state).append (limit options) packet := by
  simp only [streamContent, StreamState.push, StreamContent.append, drop_overflow hnormal]

theorem effect_append (hnormal : Normal h.options) (packet : Packet) (now : Int) :
    Effect ops h (append ops h packet now).1 (failure (append ops h packet now).2) := by
  unfold append
  split
  · exact .same _
  rename_i htopic
  split
  · exact .same _
  rename_i hpayload
  split
  · exact .same _
  rename_i hroom
  dsimp only
  split
  · exact .same _
  rename_i hschema
  have hvalid : Valid (settings h.options) (contentOf h)
      { kind := .append, epoch := h.epoch,
        packet := sequenced h ((h.streams.lookup packet.key).getD {}) packet } := by
    refine ⟨rfl, rfl, ?_, ?_⟩
    · rw [streamContent_getD]
      refine ⟨htopic, hpayload, rfl, rfl, rfl, ?_, ?_⟩
      · show (if packet.schemaVersion = 0 then h.options.schemaVersion else _) ≠ 0
        split
        · exact hnormal.schema
        · assumption
      · intro hlatest hchange
        by_contra hdelta
        exact hschema ⟨hlatest, hchange, Bool.not_eq_true _ ▸ hdelta⟩
    · intro hnone hmax
      have hnone : (h.streams.lookup packet.key).map streamContent = none := hnone
      rw [Option.map_eq_none_iff] at hnone
      rw [ncard_support]
      by_contra hfull
      exact hroom ⟨by rw [hnone]; rfl, hmax, not_lt.mp hfull⟩
  split
  · rename_i hrecord
    exact .of_refused hvalid hrecord
  rename_i hrecord
  obtain ⟨_, rfl⟩ := record_eq hrecord
  refine .done rfl hvalid hrecord rfl ?_ rfl
  refine (contentOf_insert h _ _).trans ?_
  rw [streamContent_push hnormal, ← streamContent_getD]
  rfl

variable (now : Int)

variable (observer : Observer)

theorem effect_acknowledgeEpoch (stream : Stream) (epoch sequence : Nat) (now : Int) :
    Effect ops h (acknowledgeEpoch ops h observer stream epoch sequence now).1
      (failure (acknowledgeEpoch ops h observer stream epoch sequence now).2) := by
  unfold acknowledgeEpoch
  split
  · exact .same _
  split
  · split
    · exact .same _
    · exact .same _
  rename_i state hstate
  split
  · exact .same _
  rename_i hlatest
  split_ifs with hacked
  · have hcontent : (contentOf h).streams ⟨observer, stream⟩ = some (streamContent state) := by
      rw [contentOf_streams, hstate]
      rfl
    have hvalid : Valid (settings h.options) (contentOf h)
        { kind := .acknowledge, epoch := h.epoch, observer, stream, sequence,
          pruneAcknowledged := h.options.pruneAcknowledged } :=
      ⟨rfl, rfl, streamContent state, hcontent, hacked, not_lt.mp hlatest⟩
    split
    · rename_i hrecord
      exact .of_refused hvalid hrecord
    rename_i hrecord
    obtain ⟨_, rfl⟩ := record_eq hrecord
    refine .done rfl hvalid hrecord rfl ?_ rfl
    refine (contentOf_insert h _ _).trans ?_
    simp only [Content.apply, hcontent, Option.map_some]
    rfl
  · exact .same _

theorem effect_rotateEpoch (epoch : Nat) (entropy : Entropy) :
    Effect ops h (rotateEpoch ops h epoch entropy).1
      (failure (rotateEpoch ops h epoch entropy).2) := by
  have hne := rotated_ne_zero epoch entropy
  unfold rotateEpoch
  dsimp only
  generalize (if epoch = 0 then newEpoch entropy else epoch) = epoch' at hne ⊢
  split
  · exact .same _
  have hvalid :
      Valid (settings h.options) (contentOf h) { kind := .rotateEpoch, epoch := epoch' } :=
    ⟨rfl, hne⟩
  split
  · rename_i hrecord
    exact .of_refused hvalid hrecord
  · rename_i hrecord
    obtain ⟨_, rfl⟩ := record_eq hrecord
    exact .done rfl hvalid hrecord rfl rfl rfl

theorem effect_deleteStream (stream : Stream) :
    Effect ops h (deleteStream ops h observer stream).1
      (failure (deleteStream ops h observer stream).2) := by
  unfold deleteStream
  split
  · exact .same _
  have hvalid : Valid (settings h.options) (contentOf h)
      { kind := .deleteStream, epoch := h.epoch, observer, stream } := ⟨rfl, rfl⟩
  split
  · rename_i hrecord
    exact .of_refused hvalid hrecord
  rename_i hrecord
  obtain ⟨_, rfl⟩ := record_eq hrecord
  refine .done rfl hvalid hrecord rfl (contentOf_remove (h := h) ?_) rfl
  intro key
  split
  · rename_i heq
    rw [heq, lookup_erase]
  · rename_i hne
    rw [lookup_erase_ne hne]

theorem effect_deleteObserver :
    Effect ops h (deleteObserver ops h observer).1 (failure (deleteObserver ops h observer).2) := by
  unfold deleteObserver
  dsimp only
  split
  · exact .same _
  have hvalid : Valid (settings h.options) (contentOf h)
      { kind := .deleteObserver, epoch := h.epoch, observer } := ⟨rfl, rfl⟩
  split
  · rename_i hrecord
    exact .of_refused hvalid hrecord
  rename_i hrecord
  obtain ⟨_, rfl⟩ := record_eq hrecord
  refine .done rfl hvalid hrecord rfl (contentOf_remove (h := h) ?_) rfl
  intro key
  rw [lookup_eraseAll]
  by_cases hobserver : key.observer = observer
  · split
    · rfl
    rename_i hmem
    apply lookup_eq_none.mpr
    intro hkey
    exact hmem (List.mem_filter.mpr ⟨hkey, decide_eq_true hobserver⟩)
  · rw [if_neg hobserver, if_neg]
    intro hmem
    exact hobserver (of_decide_eq_true (List.mem_filter.mp hmem).2)

theorem effect_sweepIdle :
    Effect ops h (sweepIdle ops h now).1 (failure (sweepIdle ops h now).2) := by
  unfold sweepIdle
  dsimp only
  split
  · exact .same _
  split
  · exact .same _
  have hvalid : Valid (settings h.options) (contentOf h)
      { kind := .sweepIdle, epoch := h.epoch,
        targets := idleKeys h (now - h.options.idleTTL) } := ⟨rfl, rfl⟩
  split
  · rename_i hrecord
    exact .of_refused hvalid hrecord
  rename_i hrecord
  obtain ⟨_, rfl⟩ := record_eq hrecord
  refine .done rfl hvalid hrecord rfl (contentOf_remove (h := h) ?_) rfl
  intro key
  rw [lookup_eraseAll]

theorem effect_recover (hnormal : Normal h.options) (request : ResyncRequest)
    (provider : Option (ResyncRequest → Except String Packet)) (now : Int) :
    Effect ops h (recover ops h request provider now).1
      (recover ops h request provider now).2.2 := by
  unfold recover
  dsimp only
  split
  · exact .same _
  split
  · exact .same _
  split
  · exact .same _
  rename_i packet _
  have happend : Effect ops h _ _ := effect_append hnormal (recoveryPacket request packet) now
  split
  · rename_i happended
    rwa [happended] at happend
  · rename_i happended
    rwa [happended] at happend

theorem effect_perform (hnormal : Normal h.options) (call : Call) :
    Effect ops h (perform ops h call).1 (perform ops h call).2 := by
  cases call with
  | append packet now => exact effect_append hnormal packet now
  | acknowledge
  | acknowledgeEpoch => exact effect_acknowledgeEpoch ..
  | resync => exact .same _
  | recover request provider now => exact effect_recover hnormal request provider now
  | rotateEpoch epoch entropy => exact effect_rotateEpoch epoch entropy
  | deleteStream observer stream => exact effect_deleteStream observer stream
  | deleteObserver observer => exact effect_deleteObserver observer
  | sweepIdle now => exact effect_sweepIdle now

end CubeCore.HistoryEffects
