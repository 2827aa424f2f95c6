import CubeCore.Interleaving
import CubeCore.ReassembledFrames

namespace CubeCore.SessionIsolation

open Interleaving SortedDiff ReplicationSnapshot Datagrams Reassembly List ReassembledFrames

variable (crc : List UInt8 → UInt32)

def call (r : Reassembler) (c : Call) : PushResult × Reassembler :=
  pushFor crc r c.session c.packet c.now

/-- The frames in flight are fewer than `MaxInflightFrames` before and after each call. -/
def NeverFull : Reassembler → List Call → Prop
  | r, [] => r.inflight.entries.length < r.limits.maxInflightFrames
  | r, c :: calls =>
    r.inflight.entries.length < r.limits.maxInflightFrames ∧ NeverFull (call crc r c).2 calls

instance : (r : Reassembler) → (calls : List Call) → Decidable (NeverFull crc r calls)
  | _, [] => inferInstanceAs (Decidable (_ < _))
  | r, c :: calls =>
    have := instDecidableNeverFull (call crc r c).2 calls
    inferInstanceAs (Decidable (_ ∧ _))

variable {crc}

variable {r shared alone : Reassembler} {session : UInt64} {key : AssemblyKey} {now last : Int}
  {c : Call}

variable {ttl : Int}

theorem live_antitone (h : last ≤ now) (hlive : live ttl now assembly = true) :
    live ttl last assembly = true := by
  simp only [live, decide_eq_true_eq] at hlive ⊢
  omega

theorem filter_live_mono (h : last ≤ now) (o : Option FrameAssembly) :
    (o.filter (live ttl last)).filter (live ttl now) = o.filter (live ttl now) := by
  ext assembly
  simp only [Option.filter_eq_some_iff]
  exact ⟨fun ⟨⟨ho, _⟩, hnow⟩ => ⟨ho, hnow⟩, fun ⟨ho, hnow⟩ => ⟨⟨ho, live_antitone h hnow⟩, hnow⟩⟩

variable (crc r now) in
theorem lookup_push_ne (h : key.session ≠ session) (packet : List UInt8) :
    (push crc r session packet now).2.inflight.lookup key = r.inflight.lookup key ∨
      (push crc r session packet now).2.inflight.lookup key =
        (r.inflight.lookup key).filter (live r.ttl now) := by
  by_cases hsimple : ∀ header payload,
      decodeDatagram crc packet r.limits = .ok (header, payload) → header.chunkCount = 1
  · rw [push_of_other hsimple]
    exact .inl rfl
  push Not at hsimple
  obtain ⟨header, payload, hdecode, hmulti⟩ := hsimple
  have hne : key ≠ keyOf session header := by
    rintro rfl
    exact h rfl
  rw [push_inflight hdecode hmulti, lookup_write_ne hne]
  exact .inr (lookup_sweep _ _ _)

/-- Two reassemblers have the same live frames of a session, and the second one has no
others. -/
structure Alike (session : UInt64) (last : Int) (shared alone : Reassembler) : Prop where
  limits : alone.limits = shared.limits
  ttl : alone.ttl = shared.ttl
  own : ∀ key : AssemblyKey, key.session = session →
    (alone.inflight.lookup key).filter (live shared.ttl last) =
      (shared.inflight.lookup key).filter (live shared.ttl last)
  others : ∀ key : AssemblyKey, key.session ≠ session → alone.inflight.lookup key = none

section

variable (h : Alike session last shared alone) (hle : last ≤ now)
include h hle

theorem Alike.later : Alike session now shared alone := by
  refine ⟨h.limits, h.ttl, fun key hkey => ?_, h.others⟩
  rw [← filter_live_mono hle, h.own key hkey, filter_live_mono hle]

theorem Alike.lookup_expireLocked (hkey : key.session = session) :
    (expireLocked alone now).inflight.lookup key =
      (expireLocked shared now).inflight.lookup key := by
  simp only [expireLocked, lookup_sweep, h.ttl]
  exact (h.later hle).own key hkey

theorem Alike.length_expireLocked_le :
    (expireLocked alone now).inflight.entries.length ≤
      (expireLocked shared now).inflight.entries.length := by
  rw [length_entries, length_entries]
  refine (subperm_of_subset (expireLocked alone now).inflight.keys_nodup ?_).length_le
  intro key hkey
  rw [← AList.mem_keys, ← AList.lookup_isSome] at hkey ⊢
  by_cases hsession : key.session = session
  · rwa [← h.lookup_expireLocked hle hsession]
  · simp only [expireLocked, lookup_sweep, h.others key hsession] at hkey
    cases hkey

section

variable (hroom : shared.inflight.entries.length < shared.limits.maxInflightFrames)
include hroom

theorem Alike.receive_eq (header : DatagramHeader) (payload : List UInt8) :
    receive (expireLocked alone now) session header payload now =
      receive (expireLocked shared now) session header payload now := by
  have hswept : (expireLocked shared now).inflight.entries.length ≤
      shared.inflight.entries.length := length_sweep_le _ _
  have halone := h.length_expireLocked_le hle
  have hlimits : (expireLocked alone now).limits = shared.limits := h.limits
  have hsame : (expireLocked shared now).limits = shared.limits := rfl
  unfold receive
  rw [h.lookup_expireLocked hle rfl, hlimits, hsame, decide_eq_false (by omega),
    decide_eq_false (by omega)]

theorem Alike.push_own (packet : List UInt8) :
    (push crc shared session packet now).1 = (push crc alone session packet now).1 ∧
      Alike session now (push crc shared session packet now).2
        (push crc alone session packet now).2 := by
  have hlater := h.later hle
  cases hdecode : decodeDatagram crc packet shared.limits with
  | error =>
    simp only [push, h.limits, hdecode]
    exact ⟨trivial, hlater⟩
  | ok out =>
    obtain ⟨header, payload⟩ := out
    by_cases hsingle : header.chunkCount = 1
    · simp only [push, h.limits, hdecode, if_pos hsingle]
      exact ⟨trivial, hlater⟩
    have hdecode' : decodeDatagram crc packet alone.limits = .ok (header, payload) := by
      rw [h.limits, hdecode]
    have hreceive := h.receive_eq hle hroom header payload
    rw [push_eq hdecode hsingle, push_eq hdecode' hsingle, hreceive]
    refine ⟨rfl, h.limits, h.ttl, fun key hkey => ?_, fun key hkey => ?_⟩
    · by_cases hsame : key = keyOf session header
      · subst hsame
        simp only [lookup_write]
      · simp only [lookup_write_ne hsame, h.lookup_expireLocked hle hkey]
    have hne : key ≠ keyOf session header := by
      rintro rfl
      exact hkey rfl
    simp only [lookup_write_ne hne, expireLocked, lookup_sweep, h.others key hkey]
    rfl

end

theorem Alike.push_other (hother : session ≠ other) (packet : List UInt8) :
    Alike session now (push crc shared other packet now).2 alone := by
  have hlater := h.later hle
  have hconfig : (push crc shared other packet now).2.limits = shared.limits ∧
      (push crc shared other packet now).2.ttl = shared.ttl := push_config
  refine ⟨h.limits.trans hconfig.1.symm, h.ttl.trans hconfig.2.symm, fun key hkey => ?_, h.others⟩
  rw [hconfig.2, hlater.own key hkey]
  rcases lookup_push_ne crc shared now (hkey ▸ hother) packet with heq | heq
  · rw [heq]
  · rw [heq, filter_live_mono le_rfl]

end

variable (crc session) in
/-- What two reassemblers have in common before the rest of the calls. -/
structure Similar (calls : List Call) (shared alone : Reassembler) : Prop where
  times : calls.Pairwise fun c c' => c.now ≤ c'.now
  room : NeverFull crc shared calls
  alike : ∃ last, (∀ c ∈ calls, last ≤ c.now) ∧ Alike session last shared alone

variable {calls : List Call}

theorem Similar.own (h : Similar crc session (c :: calls) shared alone)
    (hown : c.session = session) :
    (call crc shared c).1 = (call crc alone c).1 ∧
      Similar crc session calls (call crc shared c).2 (call crc alone c).2 := by
  obtain ⟨htimes, hroom, last, hlast, halike⟩ := h
  rw [pairwise_cons] at htimes
  have hle := hlast c mem_cons_self
  have hstep : (call crc shared c).1 = (call crc alone c).1 ∧
      Alike session c.now (call crc shared c).2 (call crc alone c).2 := by
    unfold call pushFor
    split
    · exact ⟨rfl, halike.later hle⟩
    · rw [hown]
      exact halike.push_own hle hroom.1 c.packet
  exact ⟨hstep.1, htimes.2, hroom.2, c.now, htimes.1, hstep.2⟩

theorem Similar.other (h : Similar crc session (c :: calls) shared alone)
    (hother : c.session ≠ session) : Similar crc session calls (call crc shared c).2 alone := by
  obtain ⟨htimes, hroom, last, hlast, halike⟩ := h
  rw [pairwise_cons] at htimes
  have hle := hlast c mem_cons_self
  refine ⟨htimes.2, hroom.2, c.now, htimes.1, ?_⟩
  unfold call pushFor
  split
  · exact halike.later hle
  · exact halike.push_other hle hother.symm c.packet

theorem similar_new (htimes : calls.Pairwise fun c c' => c.now ≤ c'.now)
    (hroom : NeverFull crc (newReassembler limits ttl) calls) :
    Similar crc session calls (newReassembler limits ttl) (newReassembler limits ttl) := by
  refine ⟨htimes, hroom, ?_⟩
  have halike (last : Int) :
      Alike session last (newReassembler limits ttl) (newReassembler limits ttl) :=
    ⟨rfl, rfl, fun _ _ => rfl, fun _ _ => rfl⟩
  cases calls with
  | nil => exact ⟨0, nofun, halike 0⟩
  | cons c =>
    refine ⟨c.now, ?_, halike c.now⟩
    rintro c' (_ | ⟨_, hc'⟩)
    · exact le_rfl
    · exact (pairwise_cons.mp htimes).1 c' hc'

/-- The calls of a session are answered as they are by a reassembler of its own. -/
theorem session_isolation (crc : List UInt8 → UInt32) {limits : Limits} {ttl : Int}
    {calls : List Call} (session : UInt64) (htimes : calls.Pairwise fun c c' => c.now ≤ c'.now)
    (hroom : NeverFull crc (newReassembler limits ttl) calls) :
    (answers (call crc) (newReassembler limits ttl) calls).filter
        (fun answer => answer.1.session = session) =
      answers (call crc) (newReassembler limits ttl)
        (calls.filter fun c => c.session = session) := by
  refine filter_answers (fun c => decide (c.session = session)) (Similar crc session) ?_ ?_
    (similar_new htimes hroom)
  · intro c calls shared alone hown hsimilar
    exact hsimilar.own (of_decide_eq_true hown)
  · intro c calls shared alone hother hsimilar
    exact hsimilar.other (of_decide_eq_false hother)

def twoSessionCalls : List Call :=
  [⟨3, twoPackets.getD 0 [], 0⟩, ⟨4, twoPackets.getD 1 [], 1⟩, ⟨3, twoPackets.getD 1 [], 2⟩]

theorem session_isolation_two_sessions :
    ((answers (call fun _ => 0) (newReassembler defaultLimits 0) twoSessionCalls).filter
        (fun answer => answer.1.session = 3)).map (fun answer => answer.2.payload) =
      [[], [7, 8]] := by
  rw [session_isolation _ 3 (by decide +kernel) (by decide +kernel)]
  decide +kernel

end CubeCore.SessionIsolation
