import CubeCore.StreamPackets
import CubeCore.TransitionSystem

namespace CubeCore.RecoverSnapshots

open NumberedLog StreamPackets SyncStream TransitionSystem List

/-- The states and changes of a domain, and how payloads carry them. -/
structure Domain (S C : Type) where
  initial : S
  apply : S → C → S
  encodeState : S → List UInt8
  decodeState : List UInt8 → S
  encodeChange : C → List UInt8
  decodeChange : List UInt8 → C
  decode_encodeState : ∀ s, decodeState (encodeState s) = s
  decode_encodeChange : ∀ c, decodeChange (encodeChange c) = c

/-- `Recover` before its provider is called, and before its `Append`; `applied` is ghost data. -/
inductive Recovering (S : Type) where
  | waiting (request : ResyncRequest) (held : S)
  | taken (request : ResyncRequest) (held : S) (packet : Packet) (applied : Nat)

/-- What a consumer held, its position, and the packets `Recover` gave it. -/
structure Consumer (S : Type) where
  held : S
  after : Nat
  packets : List Packet

/-- `changing` has the changes applied and not yet appended, `log` all packets of the stream. -/
structure World (S C J : Type) where
  history : History J
  domain : S
  log : List Packet
  applied : List C
  changing : List (Nat × C)
  recovering : List (Recovering S)
  consumers : List (Consumer S)

inductive Action (S C : Type) where
  | change (c : C)
  | appendDelta (k : Nat) (template : Packet) (now : Int)
  | resync (epoch after schema : Nat) (held : S)
  | snapshot (k : Nat) (template : Packet)
  | finish (k : Nat) (now : Int)

variable {S C J : Type} (D : Domain S C)

def deltaPacket (key : StreamKey) (template : Packet) (c : C) : Packet :=
  { template with
    observer := key.observer
    stream := key.stream
    full := false
    payload := D.encodeChange c }

def requestOf (key : StreamKey) (epoch after schema : Nat) : ResyncRequest :=
  ⟨key.observer, key.stream, epoch, after, schema⟩

variable (ops : HistoryJournal J)

def World.appendDelta (D : Domain S C) (key : StreamKey) (w : World S C J) (k : Nat) (c : C)
    (template : Packet) (now : Int) : World S C J :=
  match append ops w.history (deltaPacket D key template c) now with
  | (history, .error _) => { w with history }
  | (history, .ok stored) =>
    { w with history, log := w.log ++ [stored], changing := w.changing.eraseIdx k }

def World.finish (w : World S C J) (k : Nat) (request : ResyncRequest) (held : S)
    (packet : Packet) (now : Int) : World S C J :=
  match append ops w.history (recoveryPacket request packet) now with
  | (history, .error _) => { w with history, recovering := w.recovering.eraseIdx k }
  | (history, .ok stored) =>
    { w with
      history
      log := w.log ++ [stored]
      recovering := w.recovering.eraseIdx k
      consumers := w.consumers ++ [⟨held, request.afterSequence, [stored]⟩] }

def next (D : Domain S C) (key : StreamKey) (w : World S C J) :
    Action S C → Option (World S C J)
  | .change c =>
    some
      { w with
        domain := D.apply w.domain c
        applied := w.applied ++ [c]
        changing := w.changing ++ [(w.applied.length, c)] }
  | .appendDelta k template now =>
    w.changing[k]?.map fun change => w.appendDelta ops D key k change.2 template now
  | .resync epoch after schema held =>
    let request := requestOf key epoch after schema
    let result := SyncStream.resync w.history request
    if result.fullRequired = false then
      some { w with consumers := w.consumers ++ [⟨held, after, result.packets⟩] }
    else some { w with recovering := w.recovering ++ [.waiting request held] }
  | .snapshot k template =>
    match w.recovering[k]? with
    | some (.waiting request held) =>
      let packet := { template with payload := D.encodeState w.domain }
      some
        { w with
          recovering := w.recovering.set k (.taken request held packet w.applied.length) }
    | _ => none
  | .finish k now =>
    match w.recovering[k]? with
    | some (.taken request held packet _) => some (w.finish ops k request held packet now)
    | _ => none

/-- A history without the stream, whatever else it has. -/
structure Initial (D : Domain S C) (key : StreamKey) (w : World S C J) : Prop where
  epoch : w.history.epoch ≠ 0
  stream : w.history.streams.lookup key = none
  domain : w.domain = D.initial
  log : w.log = []
  applied : w.applied = []
  changing : w.changing = []
  recovering : w.recovering = []
  consumers : w.consumers = []

def take (s : S) (packet : Packet) : S :=
  if packet.full then D.decodeState packet.payload
  else D.apply s (D.decodeChange packet.payload)

def changes (packets : List Packet) : List C :=
  (packets.filter fun packet => packet.full = false).map fun packet =>
    D.decodeChange packet.payload

def value (packets : List Packet) : S :=
  (changes D packets).foldl D.apply D.initial

def Consumer.last (consumer : Consumer S) : Nat :=
  (consumer.packets.getLast?.map (·.sequence)).getD consumer.after

/-- The state of a consumer that has taken its packets and all later deltas. -/
def Consumer.state (log : List Packet) (consumer : Consumer S) : S :=
  (log.filter fun packet => consumer.last < packet.sequence ∧ packet.full = false).foldl (take D)
    (consumer.packets.foldl (take D) consumer.held)

/-- A consumer that asks by a position of this epoch holds the state of that position. -/
def consistent (w : World S C J) : Action S C → Prop
  | .resync epoch after _ held =>
    epoch = 0 ∨ epoch = w.history.epoch →
      held = value D (w.log.filter fun packet => packet.sequence ≤ after)
  | _ => True

/-- A snapshot that was taken has this many changes. -/
def Recovering.Has (n : Nat) : Recovering S → Prop
  | .waiting _ _ => True
  | .taken _ _ _ applied => applied = n

/-- Deltas are appended in the order of their changes, and a snapshot right after those it has. -/
def ordered (w : World S C J) : Action S C → Prop
  | .appendDelta k _ _ => ∀ change ∈ w.changing[k]?, change.1 = (changes D w.log).length
  | .finish k _ => ∀ call ∈ w.recovering[k]?, call.Has (changes D w.log).length
  | action => consistent D w action

section Values

variable {D : Domain S C}

theorem changes_append (xs ys : List Packet) :
    changes D (xs ++ ys) = changes D xs ++ changes D ys := by
  simp [changes]

variable {packet : Packet}

theorem changes_full (h : packet.full = true) : changes D [packet] = [] := by
  simp [changes, h]

theorem changes_delta (h : packet.full = false) :
    changes D [packet] = [D.decodeChange packet.payload] := by
  simp [changes, h]

theorem value_append (xs ys : List Packet) :
    value D (xs ++ ys) = (changes D ys).foldl D.apply (value D xs) := by
  rw [value, changes_append, foldl_append]
  rfl

theorem foldl_take_deltas (s : S) (packets : List Packet) :
    (packets.filter fun packet => packet.full = false).foldl (take D) s =
      (changes D packets).foldl D.apply s := by
  induction packets generalizing s with
  | nil => rfl
  | cons packet rest ih =>
    cases hfull : packet.full with
    | true => simpa [changes, hfull] using ih s
    | false => simpa [changes, hfull, take] using ih _

/-- Every full packet has the value of the packets before it. -/
def Fulls (D : Domain S C) (log : List Packet) : Prop :=
  ∀ before packet after, log = before ++ packet :: after → packet.full = true →
    D.decodeState packet.payload = value D before

variable {log : List Packet}

theorem Fulls.snoc (hfulls : Fulls D log)
    (hpacket : packet.full = true → D.decodeState packet.payload = value D log) :
    Fulls D (log ++ [packet]) := by
  intro before full after hsplit hfull
  rcases eq_nil_or_concat after with rfl | ⟨after, last, rfl⟩
  · obtain ⟨rfl, hlast⟩ := append_inj' hsplit rfl
    obtain rfl : packet = full := by simpa using hlast
    exact hpacket hfull
  · have hsplit : log ++ [packet] = (before ++ full :: after) ++ [last] := by
      simpa using hsplit
    exact hfulls before full after (append_inj' hsplit rfl).1 hfull

variable {before : List Packet}

theorem Fulls.take_value {after} (hfulls : Fulls D (before ++ packet :: after)) :
    take D (value D before) packet = value D (before ++ [packet]) := by
  rw [value_append]
  cases hfull : packet.full with
  | true =>
    rw [changes_full hfull]
    simpa [take, hfull] using hfulls before packet after rfl hfull
  | false =>
    rw [changes_delta hfull]
    simp [take, hfull]

theorem Fulls.foldl_take (hfulls : Fulls D (before ++ packets)) :
    packets.foldl (take D) (value D before) = value D (before ++ packets) := by
  induction packets generalizing before with
  | nil => simp
  | cons packet rest ih =>
    have hrest : Fulls D ((before ++ [packet]) ++ rest) := by simpa using hfulls
    rw [foldl_cons, hfulls.take_value, ih hrest, append_assoc]
    rfl

theorem Fulls.foldl_take_full (s : S) (hfulls : Fulls D (before ++ first :: rest))
    (hfull : first.full = true) :
    (first :: rest).foldl (take D) s = value D (before ++ first :: rest) := by
  have hsame : take D s first = take D (value D before) first := by simp [take, hfull]
  rw [foldl_cons, hsame]
  exact hfulls.foldl_take

/-- The consumer's packets bring it to the value of a beginning of the log. -/
def Consumer.At (D : Domain S C) (log : List Packet) (consumer : Consumer S) : Prop :=
  ∃ before after, log = before ++ after ∧
    consumer.packets.foldl (take D) consumer.held = value D before ∧
    consumer.last = before.length

theorem Consumer.At.snoc {consumer : Consumer S} (h : consumer.At D log) (packet : Packet) :
    consumer.At D (log ++ [packet]) := by
  obtain ⟨before, after, rfl, hfold, hlast⟩ := h
  exact ⟨before, after ++ [packet], by simp, hfold, hlast⟩

theorem Consumer.At.state {consumer : Consumer S} (h : consumer.At D log)
    (hnumbered : Numbered Packet.sequence 0 log) : consumer.state D log = value D log := by
  obtain ⟨before, after, rfl, hfold, hlast⟩ := h
  have hlater : ((before ++ after).filter fun packet =>
      consumer.last < packet.sequence ∧ packet.full = false) =
        after.filter fun packet => packet.full = false := by
    have hfilter := hnumbered.filter_lt
    rw [← hlast] at hfilter
    nth_rewrite 2 [← hfilter]
    rw [filter_filter]
    congr 1
    funext packet
    simp [and_comm]
  rw [Consumer.state, hlater, foldl_take_deltas, hfold, value_append]

theorem at_of_resync {key : StreamKey} {epoch after schema : Nat}
    (hlive : Live h.epoch 0 log ((h.streams.lookup key).getD {})) (hfulls : Fulls D log)
    (hheld : epoch = 0 ∨ epoch = h.epoch →
      held = value D (log.filter fun packet => packet.sequence ≤ after))
    (hanswer : (SyncStream.resync h (requestOf key epoch after schema)).fullRequired = false) :
    Consumer.At D log
      ⟨held, after, (SyncStream.resync h (requestOf key epoch after schema)).packets⟩ := by
  obtain ⟨hepoch, state, hstate, hpackets⟩ := resync_replay hanswer
  have hstate : h.streams.lookup key = some state := hstate
  rw [hstate] at hlive
  have hfirst : (log.filter fun packet => packet.sequence ≤ after) = log.take after := by
    simpa using hlive.numbered.filter_le after
  have hheld := hheld hepoch
  rw [hfirst] at hheld
  rcases hpackets with ⟨hlatest, hnil⟩ | ⟨first, rest, hitems, hsome, hbase⟩
  · have hlength : after = log.length := by
      have hlatest : after = state.latest := hlatest
      simpa [hlatest] using hlive.latest
    rw [hnil]
    refine ⟨log, [], by simp, ?_, hlength⟩
    rw [foldl_nil, hheld, hlength, take_length]
  obtain ⟨front, rfl⟩ : first :: rest <:+ log := hitems ▸ (dropWhile_suffix _).trans hlive.retained
  rw [hsome]
  refine ⟨front ++ first :: rest, [], by simp, ?_, ?_⟩
  · rcases hbase with hfull | hbase
    · exact hfulls.foldl_take_full held hfull
    cases hfull : first.full with
    | true => exact hfulls.foldl_take_full held hfull
    | false =>
      -- a delta on the consumer's position is the next packet
      have hlinked := hlive.linked first (by simp) hfull
      have hnumber := hlive.numbered.number_eq
      have hbase : first.baseSequence = after := hbase
      have hafter : after = front.length := by omega
      rw [hafter, take_left] at hheld
      rw [hheld]
      exact hfulls.foldl_take
  · obtain ⟨last, hlast⟩ : ∃ last, (first :: rest).getLast? = some last :=
      ⟨_, getLast?_eq_some_getLast (cons_ne_nil _ _)⟩
    have hlog : (front ++ first :: rest).getLast? = some last := by
      rw [getLast?_append, hlast]
      rfl
    have hnumber := hlive.numbered.number_getLast hlog
    simp only [Consumer.last, hlast, Option.map_some, Option.getD_some]
    omega

end Values

section Invariant

variable {ops : HistoryJournal J} {D : Domain S C} {key : StreamKey} {w w' : World S C J}

/-- What holds of a call of `Recover`: a snapshot has a beginning of the changes. -/
def Recovering.Ok (D : Domain S C) (key : StreamKey) (applied : List C) : Recovering S → Prop
  | .waiting request _ => request.key = key
  | .taken request _ packet n =>
    request.key = key ∧
      ∃ front back, applied = front ++ back ∧ front.length = n ∧
        D.decodeState packet.payload = front.foldl D.apply D.initial

theorem Recovering.Ok.snoc {applied : List C} {call : Recovering S}
    (h : call.Ok D key applied) (c : C) : call.Ok D key (applied ++ [c]) := by
  cases call with
  | waiting => exact h
  | taken =>
    obtain ⟨hkey, front, back, rfl, hlength, hpacket⟩ := h
    exact ⟨hkey, front, back ++ [c], by simp, hlength, hpacket⟩

structure Inv (D : Domain S C) (key : StreamKey) (w : World S C J) : Prop where
  live : Live w.history.epoch 0 w.log ((w.history.streams.lookup key).getD {})
  domain : w.domain = w.applied.foldl D.apply D.initial
  appended : changes D w.log <+: w.applied
  changing : ∀ i c, (i, c) ∈ w.changing → w.applied[i]? = some c
  pending : ∀ i, (changes D w.log).length ≤ i → i < w.applied.length → ∃ c, (i, c) ∈ w.changing
  fulls : Fulls D w.log
  recovering : ∀ call ∈ w.recovering, call.Ok D key w.applied
  consumers : ∀ consumer ∈ w.consumers, consumer.At D w.log

theorem inv_of_initial (h : Initial D key w) : Inv D key w where
  live := by
    rw [h.log, h.stream]
    exact Live.empty _
  domain := by simp [h.domain, h.applied]
  appended := by simp [h.log, changes]
  changing := by simp [h.changing]
  pending := by simp [h.applied]
  fulls := by simp [Fulls, h.log]
  recovering := by simp [h.recovering]
  consumers := by simp [h.consumers]

theorem Inv.change (hinv : Inv D key w) (c : C) : Inv D key
      { w with
        domain := D.apply w.domain c
        applied := w.applied ++ [c]
        changing := w.changing ++ [(w.applied.length, c)] } where
  __ := hinv
  domain := by simp [hinv.domain]
  appended := hinv.appended.trans (prefix_append ..)
  changing := by
    intro i d hmem
    rcases mem_append.mp hmem with hold | hnew
    · have hi := hinv.changing i d hold
      exact (List.getElem?_append_left (List.getElem?_eq_some_iff.mp hi).1).trans hi
    · obtain ⟨rfl, rfl⟩ : i = w.applied.length ∧ d = c := by simpa using hnew
      simp
  pending := by
    intro i hi hlt
    rw [length_append] at hlt
    rcases Nat.lt_succ_iff_lt_or_eq.mp hlt with hlt | rfl
    · obtain ⟨d, hmem⟩ := hinv.pending i hi hlt
      exact ⟨d, mem_append_left _ hmem⟩
    · exact ⟨c, by simp⟩
  recovering call hcall := (hinv.recovering call hcall).snoc c

theorem Inv.live_append (hinv : Inv D key w)
    (happend : append ops w.history packet now = (history, .ok stored)) (hkey : packet.key = key) :
    Live history.epoch 0 (w.log ++ [stored]) ((history.streams.lookup key).getD {}) := by
  obtain ⟨rfl, hepoch, hstreams⟩ := append_result happend
  rw [hepoch, hstreams, hkey, AList.lookup_insert]
  exact hinv.live.push packet _ now

variable {k : Nat}

theorem mem_eraseIdx_of_ne {xs : List α} {x y : α} (hk : xs[k]? = some y) (hx : x ∈ xs)
    (hne : x ≠ y) : x ∈ xs.eraseIdx k := by
  obtain ⟨i, hi⟩ := mem_iff_getElem?.mp hx
  rw [mem_eraseIdx_iff_getElem?]
  refine ⟨i, ?_, hi⟩
  rintro rfl
  exact hne (Option.some.inj (hi.symm.trans hk))

section

variable (hinv : Inv D key w)
include hinv

theorem Inv.appendDelta {c : C} (template : Packet) (now : Int) (hk : w.changing[k]? = some (i, c))
    (hi : i = (changes D w.log).length) :
    Inv D key (w.appendDelta ops D key k c template now) := by
  unfold World.appendDelta
  split
  · rename_i happend
    obtain ⟨_, rfl⟩ := append_result happend
    exact { hinv with }
  rename_i history stored happend
  obtain ⟨hstored, -, -⟩ := append_result happend
  have hfull : stored.full = false := by rw [hstored]; rfl
  have hpayload : D.decodeChange stored.payload = c := by
    rw [hstored]
    exact D.decode_encodeChange c
  have hchanges : changes D (w.log ++ [stored]) = changes D w.log ++ [c] := by
    rw [changes_append, changes_delta hfull, hpayload]
  have happlied := hinv.changing i c (mem_of_getElem? hk)
  refine
    { hinv with
      live := hinv.live_append happend rfl
      appended := ?_
      changing := fun j d hmem => hinv.changing j d (mem_of_mem_eraseIdx hmem)
      pending := ?_
      fulls := hinv.fulls.snoc fun htrue => absurd htrue (by simp [hfull])
      consumers := fun consumer hmem => (hinv.consumers consumer hmem).snoc stored }
  · obtain ⟨back, hback⟩ := hinv.appended
    rw [← hback, hi, List.getElem?_append_right le_rfl] at happlied
    obtain ⟨rest, rfl⟩ : ∃ rest, back = c :: rest := by
      cases back with
      | nil => cases happlied
      | cons d rest => exact ⟨rest, by simpa using happlied⟩
    exact ⟨rest, by rw [hchanges, ← hback]; simp⟩
  intro j hj hlt
  have hj : (changes D w.log).length + 1 ≤ j := by
    simpa [hchanges] using hj
  obtain ⟨d, hmem⟩ := hinv.pending j (by omega) hlt
  refine ⟨d, mem_eraseIdx_of_ne hk hmem ?_⟩
  rintro ⟨⟩
  omega

theorem Inv.resync {epoch after schema : Nat} {held : S}
    (hheld : epoch = 0 ∨ epoch = w.history.epoch →
      held = value D (w.log.filter fun packet => packet.sequence ≤ after))
    (hanswer :
      (SyncStream.resync w.history (requestOf key epoch after schema)).fullRequired = false) :
    Inv D key
      { w with
        consumers := w.consumers ++
          [⟨held, after,
            (SyncStream.resync w.history (requestOf key epoch after schema)).packets⟩] } :=
  { hinv with
    consumers := by
      rw [forall_mem_append, forall_mem_singleton]
      exact ⟨hinv.consumers, at_of_resync hinv.live hinv.fulls hheld hanswer⟩ }

theorem Inv.recover (hcalls : ∀ call ∈ calls, call ∈ w.recovering ∨ call.Ok D key w.applied) :
    Inv D key { w with recovering := calls } :=
  { hinv with
    recovering := fun call hmem => (hcalls call hmem).elim (hinv.recovering call) id }

theorem Inv.finish {n : Nat} {request} {held : S} {packet : Packet} (now : Int)
    (hk : w.recovering[k]? = some (.taken request held packet n))
    (hn : n = (changes D w.log).length) : Inv D key (w.finish ops k request held packet now) := by
  have herase : ∀ call ∈ w.recovering.eraseIdx k, call ∈ w.recovering := fun _ =>
    mem_of_mem_eraseIdx
  obtain ⟨hkey, front, back, happlied, hfront, hpacket⟩ := hinv.recovering _ (mem_of_getElem? hk)
  unfold World.finish
  split
  · rename_i happend
    obtain ⟨_, rfl⟩ := append_result happend
    exact { hinv.recover fun call hmem => .inl (herase call hmem) with }
  rename_i history stored happend
  obtain ⟨hstored, -, -⟩ := append_result happend
  have hfull : stored.full = true := by rw [hstored]; rfl
  have hlive := hinv.live_append happend hkey
  -- the snapshot has the changes whose deltas are in the log, and no other
  have hchanges : front = changes D w.log := by
    apply List.IsPrefix.eq_of_length
      (prefix_of_prefix_length_le ⟨back, happlied.symm⟩ hinv.appended (by omega))
    omega
  have hpayload : D.decodeState stored.payload = value D w.log := by
    have hsame : stored.payload = packet.payload := by rw [hstored]; rfl
    rw [hsame, hpacket, hchanges]
    rfl
  have hsame : changes D (w.log ++ [stored]) = changes D w.log := by
    rw [changes_append, changes_full hfull, append_nil]
  refine
    { hinv with
      live := hlive
      appended := ?_
      pending := ?_
      fulls := hinv.fulls.snoc fun _ => hpayload
      recovering := fun call hmem => hinv.recovering call (herase call hmem)
      consumers := ?_ }
  · rw [hsame]
    exact hinv.appended
  · intro j hj hlt
    exact hinv.pending j (hsame ▸ hj) hlt
  · rw [forall_mem_append, forall_mem_singleton]
    constructor
    · exact fun consumer hold => (hinv.consumers consumer hold).snoc stored
    refine ⟨w.log ++ [stored], [], by simp, ?_, ?_⟩
    · rw [value, hsame]
      simpa [take, hfull, value] using hpayload
    · have hnumber := hlive.numbered.number_eq
      simpa [Consumer.last] using hnumber

theorem Inv.next {action : Action S C} (hordered : ordered D w action)
    (hstep : next ops D key w action = some w') : Inv D key w' := by
  cases action with
  | change c =>
    cases hstep
    exact hinv.change c
  | appendDelta k template now =>
    obtain ⟨⟨i, c⟩, hk, rfl⟩ := Option.map_eq_some_iff.mp hstep
    exact hinv.appendDelta template now hk (hordered (i, c) hk)
  | resync =>
    simp only [RecoverSnapshots.next] at hstep
    split_ifs at hstep with hanswer
    · cases hstep
      exact hinv.resync hordered hanswer
    cases hstep
    apply hinv.recover
    intro call hmem
    refine (mem_append.mp hmem).imp_right fun hnew => ?_
    rw [mem_singleton.mp hnew]
    rfl
  | snapshot =>
    simp only [RecoverSnapshots.next] at hstep
    split at hstep
    · rename_i request held hk
      cases hstep
      apply hinv.recover
      intro call hmem
      refine (mem_or_eq_of_mem_set hmem).imp_right fun hnew => ?_
      have hkey := hinv.recovering _ (mem_of_getElem? hk)
      rw [hnew]
      refine ⟨hkey, w.applied, [], by simp, rfl, ?_⟩
      rw [← hinv.domain]
      exact D.decode_encodeState w.domain
    · cases hstep
  | finish k now =>
    simp only [RecoverSnapshots.next] at hstep
    split at hstep
    · rename_i request held packet n hk
      cases hstep
      exact hinv.finish now hk (hordered (.taken request held packet n) hk)
    · cases hstep

end

theorem inv_of_reach (h : Reach (next ops D key) (Initial D key) (ordered D) w) : Inv D key w :=
  h.invariant (fun _ => inv_of_initial) fun _ _ _ hinv hordered hstep =>
    hinv.next hordered hstep

end Invariant

/-- When no change is in progress, a consumer that has taken what it was given has the state of the
domain. -/
theorem recover_agrees (ops : HistoryJournal J) (D : Domain S C) (key : StreamKey)
    {w : World S C J} (hreach : Reach (next ops D key) (Initial D key) (ordered D) w)
    (hquiet : w.changing = []) : ∀ consumer ∈ w.consumers, consumer.state D w.log = w.domain := by
  intro consumer hmem
  have hinv := inv_of_reach hreach
  have hall : changes D w.log = w.applied := by
    apply hinv.appended.eq_of_length_le
    apply Nat.le_of_not_lt
    intro hlt
    obtain ⟨c, hc⟩ := hinv.pending _ le_rfl hlt
    rw [hquiet] at hc
    cases hc
  rw [(hinv.consumers consumer hmem).state hinv.live.numbered, hinv.domain, value, hall]

section Runs

instance (n : Nat) : (call : Recovering S) → Decidable (call.Has n)
  | .waiting _ _ => inferInstanceAs (Decidable True)
  | .taken _ _ _ applied => inferInstanceAs (Decidable (applied = n))

instance [DecidableEq S] (D : Domain S C) (w : World S C J) :
    (action : Action S C) → Decidable (consistent D w action)
  | .change _ | .appendDelta _ _ _ | .snapshot _ _ | .finish _ _ =>
    inferInstanceAs (Decidable True)
  | .resync epoch after _ held =>
    inferInstanceAs (Decidable (epoch = 0 ∨ epoch = w.history.epoch →
      held = value D (w.log.filter fun packet => packet.sequence ≤ after)))

instance [DecidableEq S] (D : Domain S C) (w : World S C J) :
    (action : Action S C) → Decidable (ordered D w action)
  | .appendDelta k _ _ =>
    inferInstanceAs
      (Decidable (∀ change ∈ w.changing[k]?, change.1 = (changes D w.log).length))
  | .finish k _ =>
    inferInstanceAs
      (Decidable (∀ call ∈ w.recovering[k]?, call.Has (changes D w.log).length))
  | .change c => inferInstanceAs (Decidable (consistent D w (.change c)))
  | .snapshot k template => inferInstanceAs (Decidable (consistent D w (.snapshot k template)))
  | .resync epoch after schema held =>
    inferInstanceAs (Decidable (consistent D w (.resync epoch after schema held)))

def counter : Domain Nat Nat where
  initial := 0
  apply := (· + ·)
  encodeState n := List.replicate n 0
  decodeState := List.length
  encodeChange n := List.replicate n 0
  decodeChange := List.length
  decode_encodeState _ := List.length_replicate
  decode_encodeChange _ := List.length_replicate

def chat : StreamKey := ⟨{}, { topic := "chat" }⟩

def fresh : World Nat Nat Unit where
  history := newHistory { maxPacketsPerStream := 2, epoch := 7 } ⟨none, 0⟩
  domain := 0
  log := []
  applied := []
  changing := []
  recovering := []
  consumers := []

theorem initial_fresh : Initial counter chat fresh where
  epoch := by decide
  stream := rfl
  domain := rfl
  log := rfl
  applied := rfl
  changing := rfl
  recovering := rfl
  consumers := rfl

/-- A change and its delta come between the provider and the `Append` of its snapshot. -/
theorem stale_snapshot_hides_delta :
    ∃ w, Reach (next noJournal counter chat) (Initial counter chat) (consistent counter) w ∧
      w.changing = [] ∧
      ∃ consumer, w.consumers[0]? = some consumer ∧
        consumer.state counter w.log = 0 ∧ w.domain = 5 := by
  refine exists_reach_imp (P := fun w => w.changing = [] ∧
      w.consumers[0]?.any fun (consumer : Consumer Nat) =>
      decide (consumer.state counter w.log = 0 ∧ w.domain = 5))
    (exists_of_run initial_fresh (fun w action => decide (consistent counter w action))
      [.resync 7 0 0 0, .snapshot 0 {}, .change 5, .appendDelta 0 {} 1, .finish 0 2]
      (fun _ _ _ haction => of_decide_eq_true haction) (by decide +kernel)) ?_
  rintro w hreach ⟨hquiet, hsome⟩
  obtain ⟨consumer, hconsumer, hstates⟩ := (Option.any_eq_true ..).mp hsome
  exact ⟨hquiet, consumer, hconsumer, of_decide_eq_true hstates⟩

theorem recover_agrees_two :
    ∃ w, Reach (next noJournal counter chat) (Initial counter chat) (ordered counter) w ∧
      w.changing = [] ∧ w.domain = 12 ∧ w.consumers.length = 2 ∧
      ∀ consumer ∈ w.consumers, consumer.state counter w.log = 12 := by
  refine exists_reach_imp (P := fun w => w.changing = [] ∧ w.domain = 12 ∧ w.consumers.length = 2)
    (exists_of_run initial_fresh (fun w action => decide (ordered counter w action))
      [.change 5, .appendDelta 0 {} 1, .resync 6 3 0 9, .snapshot 0 {}, .change 4, .finish 0 2,
        .appendDelta 0 {} 3, .resync 7 1 0 5, .change 3, .appendDelta 0 {} 4]
      (fun _ _ _ haction => of_decide_eq_true haction) (by decide +kernel)) ?_
  rintro w hreach ⟨hquiet, hdomain, htwo⟩
  refine ⟨hquiet, hdomain, htwo, fun consumer hmem => ?_⟩
  exact (recover_agrees noJournal counter chat hreach hquiet consumer hmem).trans hdomain

end Runs

end CubeCore.RecoverSnapshots
