import CubeCore.StreamPackets
import CubeCore.TransitionSystem

namespace CubeCore.ReplayContinuity

open StreamPackets SyncStream TransitionSystem List

variable {J : Type}

/-- Ghost data: the packets appended, the epochs used, and where the stream under a key begins in
`log`. -/
structure World (J : Type) where
  history : History J
  log : List Packet
  epochs : List Nat
  born : StreamKey → Nat

variable (ops : HistoryJournal J)

/-- A new history, without a journal or with what a journal has loaded. -/
def start (options : HistoryOptions) (entropy : Entropy) (now : Int) :
    Option J → Option (World J)
  | none =>
    let history := newHistory options entropy
    some { history, log := [], epochs := [history.epoch], born := fun _ => 0 }
  | some journal =>
    match newHistoryWithJournal ops options entropy journal now, (ops.load journal).1 with
    | .ok history, .ok snapshot =>
      some
        { history
          log := snapshot.streams.flatMap (·.packets)
          epochs := [history.epoch]
          born := fun _ => 0 }
    | _, _ => none

variable (w : World J)

def Initial : Prop :=
  ∃ options entropy now journal, start ops options entropy now journal = some w

def World.append (packet : Packet) (now : Int) : World J :=
  match SyncStream.append ops w.history packet now with
  | (history, .error _) => { w with history }
  | (history, .ok stored) =>
    { w with
      history
      log := w.log ++ [stored]
      born :=
        if (w.history.streams.lookup packet.key).isNone then
          Function.update w.born packet.key w.log.length
        else w.born }

/-- A `Recover` during other calls is a `resync` and a later `append`. -/
def World.recover (request : ResyncRequest)
    (provider : Option (ResyncRequest → Except String Packet)) (now : Int) : World J :=
  if (SyncStream.resync w.history request).fullRequired = false then w
  else
    match provider with
    | none => w
    | some snapshot =>
      match snapshot request with
      | .error _ => w
      | .ok packet => w.append ops (recoveryPacket request packet) now

def next : Call → Option (World J)
  | .append packet now => some (w.append ops packet now)
  | .acknowledge observer stream sequence now =>
    some { w with history := (acknowledge ops w.history observer stream sequence now).1 }
  | .acknowledgeEpoch observer stream epoch sequence now =>
    some
      { w with
        history := (acknowledgeEpoch ops w.history observer stream epoch sequence now).1 }
  | .resync _ => some w
  | .recover request provider now => some (w.recover ops request provider now)
  | .rotateEpoch epoch entropy =>
    let history := (rotateEpoch ops w.history epoch entropy).1
    some { w with history, epochs := history.epoch :: w.epochs }
  | .deleteStream observer stream =>
    some { w with history := (deleteStream ops w.history observer stream).1 }
  | .deleteObserver observer =>
    some { w with history := (deleteObserver ops w.history observer).1 }
  | .sweepIdle now => some { w with history := (sweepIdle ops w.history now).1 }

theorem World.append_history (packet : Packet) (now : Int) :
    (w.append ops packet now).history = (SyncStream.append ops w.history packet now).1 := by
  unfold World.append
  split <;> simp [*]

theorem World.recover_history (request : ResyncRequest)
    (provider : Option (ResyncRequest → Except String Packet)) (now : Int) :
    (w.recover ops request provider now).history =
      (SyncStream.recover ops w.history request provider now).1 := by
  unfold World.recover SyncStream.recover
  dsimp only
  split
  · rfl
  cases provider with
  | none => rfl
  | some snapshot =>
    dsimp only
    cases snapshot request with
    | error => rfl
    | ok =>
      dsimp only
      rw [World.append_history]
      split <;> simp [*]

/-- Where the key has no stream, no packet of the key was appended in the current
epoch. -/
def Unused (key : StreamKey) : Prop :=
  w.history.streams.lookup key = none →
    ∀ packet ∈ w.log, packet.key = key → packet.epoch ≠ w.history.epoch

/-- A stream is created only under a key that had no packet in the current epoch. -/
def firstInEpoch : Call → Prop
  | .append packet _ => Unused w packet.key
  | .recover request _ _ => Unused w request.key
  | _ => True

instance (w : World J) (key : StreamKey) : Decidable (Unused w key) :=
  inferInstanceAs (Decidable (_ → _))

instance (w : World J) (call : Call) : Decidable (firstInEpoch w call) :=
  match call with
  | .append packet _ => inferInstanceAs (Decidable (Unused w packet.key))
  | .recover request _ _ => inferInstanceAs (Decidable (Unused w request.key))
  | .acknowledge .. | .acknowledgeEpoch .. | .resync _ | .rotateEpoch .. | .deleteStream ..
  | .deleteObserver _ | .sweepIdle _ => .isTrue trivial

/-- `RotateEpoch` goes to an epoch that was not used before. -/
def newEpochs : Call → Prop
  | .rotateEpoch epoch entropy =>
    (if epoch = 0 then newEpoch entropy else epoch) ∉ w.epochs
  | _ => True

/-- What a step that is `firstInEpoch` does. -/
inductive Change (ops : HistoryJournal J) (w w' : World J) : Prop
  | shrinks : Shrinks w.history w'.history → w'.log = w.log → Change ops w w'
  | appends {packet stored : Packet} {now : Int} : Unused w packet.key →
      SyncStream.append ops w.history packet now = (w'.history, .ok stored) →
      w'.log = w.log ++ [stored] → Change ops w w'
  | rotates : w'.history.epoch ≠ 0 → w'.history.streams = ∅ → w'.log = w.log →
      Change ops w w'

variable {w : World J} {packet : Packet}

theorem change_append (now : Int) (hunused : Unused w packet.key) :
    Change ops w (w.append ops packet now) := by
  unfold World.append
  split
  · rename_i happend
    obtain ⟨_, rfl⟩ := append_result happend
    exact .shrinks (.of_lookup rfl id) rfl
  · rename_i happend
    exact .appends hunused happend rfl

theorem change_recover {request : ResyncRequest}
    (provider : Option (ResyncRequest → Except String Packet)) (now : Int)
    (hunused : Unused w request.key) : Change ops w (w.recover ops request provider now) := by
  fun_cases World.recover ops w request provider now with
  | case4 => exact change_append ops now hunused
  | _ => exact .shrinks (.refl _) rfl

variable {ops : HistoryJournal J} {w' : World J}

theorem change_of_next {call : Call} (hguard : firstInEpoch w call)
    (hnext : next ops w call = some w') : Change ops w w' := by
  cases call with
  | append _ now =>
    cases hnext
    exact change_append ops now hguard
  | recover _ provider now =>
    cases hnext
    exact change_recover ops provider now hguard
  | acknowledge
  | acknowledgeEpoch =>
    cases hnext
    exact .shrinks (shrinks_acknowledgeEpoch ..) rfl
  | resync =>
    cases hnext
    exact .shrinks (.refl _) rfl
  | rotateEpoch epoch entropy =>
    cases hnext
    rcases rotateEpoch_cases ops w.history epoch entropy with hshrinks | ⟨hepoch, hstreams⟩
    · exact .shrinks hshrinks rfl
    · exact .rotates hepoch hstreams rfl
  | deleteStream =>
    cases hnext
    exact .shrinks (shrinks_deleteStream ..) rfl
  | deleteObserver =>
    cases hnext
    exact .shrinks (shrinks_deleteObserver ..) rfl
  | sweepIdle =>
    cases hnext
    exact .shrinks (shrinks_sweepIdle ..) rfl

/-- Every stream fits the packets that were appended under its key. -/
structure Kept (w : World J) : Prop where
  epoch : w.history.epoch ≠ 0
  log : ∀ packet ∈ w.log, packet.epoch ≠ 0
  streams : ∀ {key state}, w.history.streams.lookup key = some state →
    Fits w.history.epoch (ofKey key w.log) state

theorem Kept.fits_getD {key : StreamKey} (hkept : Kept w) (hunused : Unused w key) :
    Fits w.history.epoch (ofKey key w.log) ((w.history.streams.lookup key).getD {}) := by
  cases hlookup : w.history.streams.lookup key with
  | some => exact hkept.streams hlookup
  | none =>
    refine ⟨ofKey key w.log, [], 0, by simp, ?_, .empty _⟩
    intro packet hmem
    obtain ⟨hlog, hkey⟩ := mem_filter.mp hmem
    exact hunused hlookup packet hlog (of_decide_eq_true hkey)

theorem kept_initial (hinit : Initial ops w) : Kept w := by
  obtain ⟨options, entropy, now, journal, hstart⟩ := hinit
  cases journal with
  | none =>
    cases hstart
    refine ⟨newHistory_epoch_ne_zero options entropy, nofun, ?_⟩
    intro key state hlookup
    cases hlookup
  | some journal =>
    unfold start newHistoryWithJournal at hstart
    rcases hload : ops.load journal with ⟨err | snapshot, loaded⟩
    · simp [hload] at hstart
    simp only [hload] at hstart
    split at hstart
    · rename_i hhistory hsnapshot
      split at hhistory
      · cases hhistory
      rename_i himport
      obtain ⟨hepoch, himported⟩ := imported_of_importSnapshot himport
      cases hhistory
      cases hsnapshot
      cases hstart
      refine ⟨hepoch, ?_, ?_⟩
      · intro packet hmem
        rwa [himported.sameEpoch packet hmem]
      · intro key state hlookup
        obtain ⟨first, hlive⟩ := himported.live hlookup
        exact ⟨[], _, first, rfl, nofun, hlive⟩
    · cases hstart

theorem kept_change (hkept : Kept w) (hchange : Change ops w w') : Kept w' := by
  cases hchange with
  | shrinks hshrinks hlog =>
    refine ⟨hshrinks.epoch ▸ hkept.epoch, hlog ▸ hkept.log, ?_⟩
    intro key state' hlookup
    obtain ⟨state, hstate, hlatest, hitems⟩ := hshrinks.streams hlookup
    rw [hshrinks.epoch, hlog]
    exact (hkept.streams hstate).shrink hlatest hitems
  | rotates hepoch hstreams hlog =>
    refine ⟨hepoch, hlog ▸ hkept.log, ?_⟩
    intro key state hlookup
    rw [hstreams] at hlookup
    cases hlookup
  | @appends packet stored now hunused happend hlog =>
    obtain ⟨hstored, hepoch, hstreams⟩ := append_result happend
    have hkey : ∀ q ∈ [stored], q.key = packet.key := by
      intro q hq
      rw [mem_singleton.mp hq, hstored]
      rfl
    refine ⟨hepoch ▸ hkept.epoch, ?_, ?_⟩
    · rw [hlog, forall_mem_append, forall_mem_singleton, hstored]
      exact ⟨hkept.log, hkept.epoch⟩
    intro key state hlookup
    rw [hstreams] at hlookup
    rw [hepoch, hlog, ofKey_append]
    rcases eq_or_ne key packet.key with rfl | hne
    · rw [AList.lookup_insert] at hlookup
      cases hlookup
      rw [ofKey_of_all hkey, hstored]
      exact (hkept.fits_getD hunused).push packet _ now
    · rw [AList.lookup_insert_ne hne] at hlookup
      rw [ofKey_of_ne hkey hne, append_nil]
      exact hkept.streams hlookup

theorem kept_of_reach (hreach : Reach (next ops) (Initial ops) firstInEpoch w) : Kept w :=
  hreach.invariant (fun _ => kept_initial) fun _ _ _ hkept hguard hnext =>
    kept_change hkept (change_of_next hguard hnext)

/-- The packets appended under the key after position `i` of the log. -/
def missed (w : World J) (key : StreamKey) (i : Nat) : List Packet :=
  ofKey key (w.log.drop (i + 1))

/-- All that was missed, or an end of it that starts with a full packet. -/
def Replays (missed packets : List Packet) : Prop :=
  packets = missed ∨ packets <:+ missed ∧ packets.head?.any (·.full) = true

instance (missed packets : List Packet) : Decidable (Replays missed packets) :=
  inferInstanceAs (Decidable (_ ∨ _))

/-- The packet at position `i` belongs to the stream under the key and is acknowledged. -/
def Marked (w : World J) (key : StreamKey) (i : Nat) : Prop :=
  ∃ state packet, w.history.streams.lookup key = some state ∧ w.log[i]? = some packet ∧
    packet.key = key ∧ w.born key ≤ i ∧ packet.sequence ≤ state.acked

instance (w : World J) (key : StreamKey) (i : Nat) : Decidable (Marked w key i) :=
  decidable_of_iff
    ((w.history.streams.lookup key).any fun state => w.log[i]?.any fun packet =>
      decide (packet.key = key ∧ w.born key ≤ i ∧ packet.sequence ≤ state.acked)) <| by
    simp only [Marked, Option.any_eq_true, decide_eq_true_eq]
    constructor
    · rintro ⟨state, hstate, packet, hpacket, hmarked⟩
      exact ⟨state, packet, hstate, hpacket, hmarked⟩
    · rintro ⟨state, packet, hstate, hpacket, hmarked⟩
      exact ⟨state, hstate, packet, hpacket, hmarked⟩

variable {i : Nat}

theorem ofKey_log (hi : w.log[i]? = some packet) :
    ofKey packet.key w.log =
      ofKey packet.key (w.log.take i) ++ packet :: missed w packet.key i := by
  obtain ⟨hlt, heq⟩ := List.getElem?_eq_some_iff.mp hi
  have hsplit : w.log = w.log.take i ++ packet :: w.log.drop (i + 1) := by
    rw [← heq, cons_getElem_drop_succ, take_append_drop]
  calc
    ofKey packet.key w.log
      = ofKey packet.key (w.log.take i ++ packet :: w.log.drop (i + 1)) := by rw [← hsplit]
    _ = _ := by simp [ofKey, missed]

theorem Kept.live_after {state : StreamState} (hkept : Kept w) (hi : w.log[i]? = some packet)
    (hepoch : packet.epoch = w.history.epoch)
    (hstate : w.history.streams.lookup packet.key = some state) :
    ∃ front first, Live w.history.epoch first (front ++ packet :: missed w packet.key i) state := by
  have hfits := hkept.streams hstate
  rw [ofKey_log hi] at hfits
  exact hfits.after hepoch

theorem Kept.resync_replays (hkept : Kept w) (hi : w.log[i]? = some packet) (schema : Nat)
    (hanswer : (resync w.history
      ⟨packet.observer, packet.stream, packet.epoch, packet.sequence, schema⟩).fullRequired =
        false) :
    Replays (missed w packet.key i) (resync w.history
      ⟨packet.observer, packet.stream, packet.epoch, packet.sequence, schema⟩).packets := by
  obtain ⟨hepoch, state, hstate, hpackets⟩ := resync_replay hanswer
  have hzero := hkept.log packet (mem_of_getElem? hi)
  obtain ⟨front, first, hlive⟩ := hkept.live_after hi (hepoch.resolve_left hzero) hstate
  rcases hpackets with ⟨hlatest, hnil⟩ | ⟨head, rest, hitems, hsome, hbase⟩
  · -- the consumer has the latest packet
    left
    have hnumber := hlive.numbered.number_eq
    have hlast := hlive.latest
    have hlatest : packet.sequence = state.latest := hlatest
    simp only [length_append, length_cons] at hlast
    rw [hnil]
    exact (eq_nil_of_length_eq_zero (by omega)).symm
  · have hsuffix := hlive.numbered.read_after hlive.retained
    rw [hitems] at hsuffix
    rw [hsome]
    rcases hbase with hfull | hbase
    · exact .inr ⟨hsuffix, by simpa using hfull⟩
    cases hfull : head.full with
    | true => exact .inr ⟨hsuffix, by simpa using hfull⟩
    | false =>
      -- a delta on the consumer's packet is the next one
      have hmem : head ∈ front ++ packet :: missed w packet.key i :=
        mem_append_right _ (.tail _ (hsuffix.mem mem_cons_self))
      have hlinked := hlive.linked head hmem hfull
      left
      apply hlive.numbered.after.eq_of_suffix hsuffix
      have hbase : head.baseSequence = packet.sequence := hbase
      omega

theorem Kept.acknowledge_marks (hkept : Kept w) (hi : w.log[i]? = some packet)
    (hack : acknowledgeEpoch ops w.history packet.observer packet.stream packet.epoch
      packet.sequence now = (history, .ok ())) (hj :
    Marked { w with history } packet.key j) : Marked w packet.key j ∨ j ≤ i := by
  obtain ⟨state', marked, hstate', hmarked, hkey, hborn, hacked⟩ := hj
  obtain ⟨hepoch, rfl | ⟨state, hstate, -, -, -, hstreams⟩⟩ := acknowledgeEpoch_result hack
  · exact .inl ⟨state', marked, hstate', hmarked, hkey, hborn, hacked⟩
  obtain ⟨front, first, hlive⟩ := hkept.live_after hi hepoch hstate
  rw [hstreams, Packet.key, AList.lookup_insert] at hstate'
  cases hstate'
  right
  by_contra hlt
  -- what was appended later has a higher number
  have hmem : marked ∈ missed w packet.key i := by
    refine mem_filter.mpr ⟨?_, decide_eq_true hkey⟩
    have hdrop : (w.log.drop (i + 1))[j - (i + 1)]? = some marked := by
      rw [List.getElem?_drop, ← hmarked]
      congr 1
      omega
    exact mem_of_getElem? hdrop
  have hlater := hlive.numbered.after.start_lt hmem
  have hacked : marked.sequence ≤ packet.sequence := hacked
  omega

/-- An answer without `FullRequired` replays what the consumer has missed, and its acknowledgement
marks no later packet. -/
theorem replay_continuity (ops : HistoryJournal J) {w : World J}
    (hreach : Reach (next ops) (Initial ops) firstInEpoch w) {i : Nat} {packet : Packet}
    (hi : w.log[i]? = some packet) :
    (∀ schema,
      (resync w.history
        ⟨packet.observer, packet.stream, packet.epoch, packet.sequence, schema⟩).fullRequired =
          false →
      Replays (missed w packet.key i) (resync w.history
        ⟨packet.observer, packet.stream, packet.epoch, packet.sequence, schema⟩).packets) ∧
    ∀ now history,
      acknowledgeEpoch ops w.history packet.observer packet.stream packet.epoch
        packet.sequence now = (history, .ok ()) →
      ∀ j, Marked { w with history } packet.key j → Marked w packet.key j ∨ j ≤ i := by
  have hkept := kept_of_reach hreach
  constructor
  · intro schema hanswer
    exact hkept.resync_replays hi schema hanswer
  · intro now history hack j hj
    exact hkept.acknowledge_marks hi hack hj

section Runs

def fresh : World Unit where
  history := newHistory { maxPacketsPerStream := 2, epoch := 7 } ⟨none, 0⟩
  log := []
  epochs := [7]
  born _ := 0

theorem initial_fresh : Initial noJournal fresh :=
  ⟨{ maxPacketsPerStream := 2, epoch := 7 }, ⟨none, 0⟩, 0, none, rfl⟩

def chat : Stream := { topic := "chat" }

def delta (body : UInt8) : Packet := { stream := chat, payload := [body] }

def resumed (w : World Unit) (packet : Packet) : ResyncResult :=
  resync w.history ⟨packet.observer, packet.stream, packet.epoch, packet.sequence, 0⟩

def acknowledged (w : World Unit) (packet : Packet) : World Unit × Except HistoryError Unit :=
  let (history, result) :=
    acknowledgeEpoch noJournal w.history packet.observer packet.stream packet.epoch
      packet.sequence 9
  ({ w with history }, result)

/-- A stream is created again: the old consumer gets its second packet only, and acknowledges the
first. -/
theorem recreated_stream_breaks_continuity :
    ∃ w, Reach (next noJournal) (Initial noJournal) newEpochs w ∧
      ∃ packet, w.log[0]? = some packet ∧ (resumed w packet).fullRequired = false ∧
        ¬ Replays (missed w packet.key 0) (resumed w packet).packets ∧
        (acknowledged w packet).2 = .ok () ∧
        Marked (acknowledged w packet).1 packet.key 1 ∧ ¬ Marked w packet.key 1 := by
  have htest : ∀ w call, (!(call matches .rotateEpoch ..)) = true →
      newEpochs (J := Unit) w call := by
    intro w call hcall
    cases call <;> trivial
  refine exists_reach_imp (P := fun w => w.log[0]?.any fun packet =>
      decide ((resumed w packet).fullRequired = false ∧
      ¬ Replays (missed w packet.key 0) (resumed w packet).packets ∧
      (acknowledged w packet).2 = .ok () ∧ Marked (acknowledged w packet).1 packet.key 1 ∧
      ¬ Marked w packet.key 1))
    (exists_of_run initial_fresh (fun _ call => !(call matches .rotateEpoch ..))
      [.append (delta 1) 1, .deleteStream {} chat, .append (delta 2) 2, .append (delta 3) 3]
      (fun w call _ hcall => htest w call hcall) (by decide +kernel)) ?_
  intro w hreach hw
  obtain ⟨packet, hpacket, hbroken⟩ := (Option.any_eq_true ..).mp hw
  exact ⟨packet, hpacket, of_decide_eq_true hbroken⟩

theorem replay_continuity_rotated :
    ∃ w, Reach (next noJournal) (Initial noJournal) firstInEpoch w ∧
      ∃ packet, w.log[1]? = some packet ∧
        (resumed w packet).fullRequired = false ∧ (resumed w packet).packets.length = 2 ∧
        (missed w packet.key 1).length = 3 ∧ (acknowledged w packet).2 = .ok () ∧
        Replays (missed w packet.key 1) (resumed w packet).packets ∧
        ∀ j, Marked (acknowledged w packet).1 packet.key j → Marked w packet.key j ∨ j ≤ 1 := by
  refine exists_reach_imp (P := fun w => w.log[1]?.any fun packet =>
      decide ((resumed w packet).fullRequired = false ∧ (resumed w packet).packets.length = 2 ∧
      (missed w packet.key 1).length = 3 ∧ (acknowledged w packet).2 = .ok ()))
    (exists_of_run initial_fresh (fun w call => decide (firstInEpoch w call))
      [.append (delta 1) 1, .deleteStream {} chat, .rotateEpoch 8 ⟨none, 0⟩,
        .append (delta 2) 2, .append (delta 3) 3,
        .append { delta 4 with full := true } 4, .append (delta 5) 5]
      (fun _ _ _ hcall => of_decide_eq_true hcall) (by decide +kernel)) ?_
  intro w hreach hw
  obtain ⟨packet, hpacket, hrun⟩ := (Option.any_eq_true ..).mp hw
  obtain ⟨hanswer, htwo, hthree, hack⟩ := of_decide_eq_true hrun
  obtain ⟨hreplays, hmarks⟩ := replay_continuity noJournal hreach hpacket
  exact ⟨packet, hpacket, hanswer, htwo, hthree, hack, hreplays 0 hanswer,
    fun j hj => hmarks 9 _ (Prod.ext rfl hack) j hj⟩

end Runs

end CubeCore.ReplayContinuity
