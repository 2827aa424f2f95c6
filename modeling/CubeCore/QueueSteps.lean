import CubeCore.QueueTickets

namespace CubeCore.QueueSteps

open MPSCQueue QueueTickets List Nat

variable {T : Type} {g : Nat} {q q' : Queue T}

variable {p : Nat × T}

section Stores

def win (q : Queue T) (g : Nat) (val : T) : Queue T :=
  { q with head := q.head + 1, pushed := q.pushed ++ [(g, val)] }

def publish (q : Queue T) (pos : Nat) : Queue T :=
  { q.setSeq (BitVec.ofNat 64 pos) (BitVec.ofNat 64 pos + 1) with
    ready := Function.update q.ready pos true }

def take (q : Queue T) : Queue T := { q with tail := q.tail + 1, taken := q.taken + 1 }

def release (q : Queue T) (val : Cell T) : Queue T :=
  { q.setSeq (BitVec.ofNat 64 q.popped.length)
      (BitVec.ofNat 64 q.popped.length + q.mask + 1) with
    popped := q.popped ++ [val] }

theorem ok_win (hok : Ok q) (hroom : q.pushed.length < q.popped.length + q.cap) (val : T) :
    Ok (win q g val) where
  __ := hok
  head := by
    show q.head + 1 = BitVec.ofNat 64 (q.pushed ++ [(g, val)]).length
    rw [hok.head, ofNat_add_one, length_append, length_singleton]
  taken_le := by
    show q.taken ≤ (q.pushed ++ [(g, val)]).length
    rw [length_append]
    exact le_add_right_of_le hok.taken_le
  room := by
    show (q.pushed ++ [(g, val)]).length ≤ _
    rwa [length_append]
  ready_lt := by
    intro i hready
    show i < (q.pushed ++ [(g, val)]).length
    rw [length_append]
    exact Nat.lt_add_right _ (hok.ready_lt i hready)
  val := by
    intro i p htaken hready hplace
    apply hok.val i p htaken hready
    have hplace : (q.pushed ++ [(g, val)])[i]? = some p := hplace
    rwa [List.getElem?_append_left (hok.ready_lt i hready)] at hplace
  popped := by
    show q.popped = ((q.pushed ++ [(g, val)]).take q.popped.length).map _
    rw [take_append_of_le_length (hok.popped_le.trans hok.taken_le)]
    exact hok.popped

variable {pos i : Nat}

theorem seq_setVal (hok : Ok q) (hpos : InRing q pos) (c : Cell T) (hi : InRing q i) :
    (at_ (q.setVal (BitVec.ofNat 64 pos) c) i).seq = (at_ q i).seq := by
  by_cases hne : i = pos
  · rw [hne, at_setVal_self]
  · rw [hok.at_setVal hi hpos hne]

theorem ok_setVal (hok : Ok q) (hpos : InRing q pos)
    (hunread : pos < q.taken ∨ q.ready pos = false) (c : Cell T) :
    Ok (q.setVal (BitVec.ofNat 64 pos) c) where
  __ := hok
  seq := by
    intro i hi
    rw [seq_setVal hok hpos c hi]
    exact hok.seq i hi
  val := by
    intro i p htaken hready hplace
    have hne : i ≠ pos := by
      rintro rfl
      rcases hunread with hlt | hfalse
      · exact absurd htaken (not_le.mpr hlt)
      · exact absurd (hready.symm.trans hfalse) (by decide)
    rw [hok.at_setVal (hok.inRing (hok.popped_le.trans htaken) (hok.ready_lt i hready)) hpos hne]
    exact hok.val i p htaken hready hplace

theorem ready_publish_of_ne (hne : i ≠ pos) : (publish q pos).ready i = q.ready i :=
  Function.update_of_ne hne ..

theorem ok_publish {val : T} (hok : Ok q) (howns : Owns g q val pos)
    (hval : (at_ q pos).val = .stored val) : Ok (publish q pos) where
  __ := hok
  ready_lt := by
    intro i hready
    by_cases hne : i = pos
    · rw [hne]
      exact howns.lt
    · exact hok.ready_lt i ((ready_publish_of_ne hne).symm.trans hready)
  ready_taken := by
    intro i hlt
    have hne : i ≠ pos := by
      have := howns.taken_le hok
      have hlt : i < q.taken := hlt
      omega
    exact (ready_publish_of_ne hne).trans (hok.ready_taken i hlt)
  seq := by
    intro i hi
    by_cases hne : i = pos
    · rw [hne, ticket, show (publish q pos).ready pos = true from
        Function.update_self .., if_pos rfl, ← ofNat_add_one]
      exact congrArg Slot.seq (at_setSeq_self q pos _)
    · rw [ticket, ready_publish_of_ne hne]
      exact (congrArg Slot.seq (hok.at_setSeq hi (howns.inRing hok) hne _)).trans (hok.seq i hi)
  val := by
    intro i p htaken hready hplace
    rcases eq_or_ne i pos with rfl | hne
    · have hp : (g, val) = p := Option.some.inj (howns.place.symm.trans hplace)
      rw [← hp]
      exact (congrArg Slot.val (at_setSeq_self q i _)).trans hval
    have hready : q.ready i = true := (ready_publish_of_ne hne).symm.trans hready
    have hi := hok.inRing (hok.popped_le.trans htaken) (hok.ready_lt i hready)
    exact (congrArg Slot.val (hok.at_setSeq hi (howns.inRing hok) hne _)).trans
      (hok.val i p htaken hready hplace)

theorem ok_take (hok : Ok q) (htaken : q.taken = q.popped.length)
    (hready : q.ready q.popped.length = true) : Ok (take q) where
  __ := hok
  tail := by
    show q.tail + 1 = BitVec.ofNat 64 (q.taken + 1)
    rw [hok.tail, ofNat_add_one]
  popped_le := le_succ_of_le hok.popped_le
  taken_le := by
    show q.taken + 1 ≤ q.pushed.length
    rw [htaken]
    exact hok.ready_lt _ hready
  ready_taken := by
    intro i hlt
    rcases Nat.lt_succ_iff_lt_or_eq.mp hlt with hlt | rfl
    · exact hok.ready_taken i hlt
    · show q.ready q.taken = true
      rwa [htaken]
  val := fun i p hle => hok.val i p (le_of_succ_le hle)

theorem ofNat_add_mask (q : Queue T) (i : Nat) :
    BitVec.ofNat 64 i + q.mask + 1 = BitVec.ofNat 64 (i + q.cap) := by
  apply BitVec.eq_of_toNat_eq
  rw [BitVec.toNat_add, BitVec.toNat_add, BitVec.toNat_ofNat, BitVec.toNat_ofNat, Queue.cap,
    show (1 : BitVec 64).toNat = 1 from rfl]
  omega

theorem ok_release (hok : Ok q) (htaken : q.taken = q.popped.length + 1)
    (hplace : q.pushed[q.popped.length]? = some p) : Ok (release q (.stored p.2)) := by
  have hcap := hok.cap_bounds
  have hfirst : InRing q q.popped.length := ⟨le_rfl, by omega⟩
  have hlength : (release q (.stored p.2)).popped.length = q.popped.length + 1 := length_append
  refine
    { __ := hok
      popped_le := by rw [hlength, ← htaken]; rfl
      room := by
        have hroom := hok.room
        show q.pushed.length ≤ (release q (.stored p.2)).popped.length + q.cap
        omega
      seq := ?_
      val := ?_
      popped := ?_ }
  · rintro i ⟨hlow, hhigh⟩
    rw [hlength] at hlow hhigh
    have hhigh : i < q.popped.length + 1 + q.cap := hhigh
    show (at_ (q.setSeq _ _) i).seq = BitVec.ofNat 64 (ticket q i)
    rcases lt_or_ge i (q.popped.length + q.cap) with hlt | hge
    · have hi : InRing q i := ⟨by omega, hlt⟩
      rw [hok.at_setSeq hi hfirst (by omega)]
      exact hok.seq i hi
    -- the released slot, for its next place
    obtain rfl : i = q.popped.length + q.cap := by omega
    have hready : q.ready (q.popped.length + q.cap) = false := hok.ready_eq_false hok.room
    have hsame : at_ (q.setSeq (BitVec.ofNat 64 q.popped.length)
        (BitVec.ofNat 64 q.popped.length + q.mask + 1)) (q.popped.length + q.cap) =
          at_ (q.setSeq (BitVec.ofNat 64 q.popped.length)
            (BitVec.ofNat 64 q.popped.length + q.mask + 1)) q.popped.length := by
      show (q.setSeq _ _).buf _ = (q.setSeq _ _).buf _
      congr 1
      show (_ &&& q.mask).toNat = (_ &&& q.mask).toNat
      rw [hok.index, hok.index, add_mod_right]
    rw [hsame, at_setSeq_self, ofNat_add_mask, ticket, hready]
    rfl
  · intro i p' hle hready hplace'
    have hle : q.popped.length + 1 ≤ i := htaken ▸ hle
    have hi := hok.inRing (by omega) (hok.ready_lt i hready)
    exact (congrArg Slot.val (hok.at_setSeq hi hfirst (by omega) _)).trans
      (hok.val i p' (by omega) hready hplace')
  · show q.popped ++ [Cell.stored p.2] =
      (q.pushed.take (q.popped ++ [Cell.stored p.2]).length).map fun p => .stored p.2
    rw [length_append, length_singleton, take_add_one, hplace, map_append, ← hok.popped]
    rfl

end Stores

section Frames

/-- What a step of a `Push` by goroutine `g` leaves as it is. -/
structure PushFrame (g : Nat) (q q' : Queue T) : Prop where
  mask : q'.mask = q.mask
  popped : q'.popped = q.popped
  taken : q'.taken = q.taken
  pushed : q.pushed <+: q'.pushed
  kept : ∀ i, InRing q i → (∀ val, ¬ Owns g q val i) →
    q'.ready i = q.ready i ∧ (at_ q' i).val = (at_ q i).val

theorem PushFrame.refl (g : Nat) (q : Queue T) : PushFrame g q q :=
  ⟨rfl, rfl, rfl, prefix_refl _, fun _ _ _ => ⟨rfl, rfl⟩⟩

theorem PushFrame.place {i : Nat} (h : PushFrame g q q') (hplace : q.pushed[i]? = some p) :
    q'.pushed[i]? = some p := by
  obtain ⟨rest, hrest⟩ := h.pushed
  rwa [← hrest, List.getElem?_append_left (List.getElem?_eq_some_iff.mp hplace).1]

theorem frame_win (g : Nat) (q : Queue T) (val : T) : PushFrame g q (win q g val) :=
  ⟨rfl, rfl, rfl, prefix_append .., fun _ _ _ => ⟨rfl, rfl⟩⟩

variable {val : T} {pos : Nat}

theorem frame_setVal (hok : Ok q) (howns : Owns g q val pos) (c : Cell T) :
    PushFrame g q (q.setVal (BitVec.ofNat 64 pos) c) := by
  refine ⟨rfl, rfl, rfl, prefix_refl _, fun i hi hnot => ⟨rfl, ?_⟩⟩
  have hne : i ≠ pos := by
    rintro rfl
    exact hnot val howns
  rw [hok.at_setVal hi (howns.inRing hok) hne]

theorem frame_publish (hok : Ok q) (howns : Owns g q val pos) : PushFrame g q (publish q pos) := by
  refine ⟨rfl, rfl, rfl, prefix_refl _, fun i hi hnot => ?_⟩
  have hne : i ≠ pos := by
    rintro rfl
    exact hnot val howns
  exact ⟨ready_publish_of_ne hne, congrArg Slot.val (hok.at_setSeq hi (howns.inRing hok) hne _)⟩

/-- What a step of a `Pop` leaves as it is. -/
structure PopFrame (q q' : Queue T) : Prop where
  mask : q'.mask = q.mask
  pushed : q'.pushed = q.pushed
  ready : q'.ready = q.ready
  popped : q.popped <+: q'.popped
  kept : ∀ i, InRing q i → q.ready i = false → (at_ q' i).val = (at_ q i).val

theorem PopFrame.refl (q : Queue T) : PopFrame q q :=
  ⟨rfl, rfl, rfl, prefix_refl _, fun _ _ _ => rfl⟩

theorem owns_of_push {g' : Nat} (hok : Ok q) (hframe : PushFrame g q q') (hne : g' ≠ g)
    (h : Owns g' q val pos) : Owns g' q' val pos ∧ (at_ q' pos).val = (at_ q pos).val := by
  have hnot : ∀ val', ¬ Owns g q val' pos := by
    intro val' hother
    have hp := Option.some.inj (h.place.symm.trans hother.place)
    exact hne (congrArg Prod.fst hp)
  obtain ⟨hready, hval⟩ := hframe.kept pos (h.inRing hok) hnot
  exact ⟨⟨hframe.place h.place, hready.trans h.ready⟩, hval⟩

variable {pc : PushPC T}

theorem pushKnows_of_push {g' : Nat} (hok : Ok q) (hframe : PushFrame g q q') (hne : g' ≠ g)
    (h : PushKnows g' q pc) : PushKnows g' q' pc := by
  have hlength := hframe.pushed.length_le
  have hcap : q'.cap = q.cap := by rw [Queue.cap, hframe.mask, Queue.cap]
  cases pc with
  | loadHead => trivial
  | loadSeq => exact ⟨h.1, h.2.trans hlength⟩
  | swap =>
    refine ⟨h.1, h.2.1.trans hlength, ?_⟩
    rw [hframe.popped, hcap]
    exact h.2.2
  | write | written => exact ⟨h.1, (owns_of_push hok hframe hne h.2).1⟩
  | storeSeq =>
    obtain ⟨howns, hval⟩ := owns_of_push hok hframe hne h.2.1
    exact ⟨h.1, howns, hval.trans h.2.2⟩

theorem pushKnows_of_pop (hok : Ok q) (hframe : PopFrame q q') (h : PushKnows g q pc) :
    PushKnows g q' pc := by
  have hcap : q'.cap = q.cap := by rw [Queue.cap, hframe.mask, Queue.cap]
  have howns : ∀ {val : T} {pos : Nat}, Owns g q val pos → Owns g q' val pos := by
    intro val pos howns
    constructor
    · rw [hframe.pushed]
      exact howns.place
    · rw [hframe.ready]
      exact howns.ready
  cases pc with
  | loadHead => trivial
  | loadSeq =>
    refine ⟨h.1, ?_⟩
    rw [hframe.pushed]
    exact h.2
  | swap =>
    have hlength := hframe.popped.length_le
    refine ⟨h.1, ?_, ?_⟩
    · rw [hframe.pushed]
      exact h.2.1
    · have := h.2.2
      omega
  | write | written => exact ⟨h.1, howns h.2⟩
  | storeSeq _ _ pos =>
    exact ⟨h.1, howns h.2.1, (hframe.kept pos (h.2.1.inRing hok) h.2.1.ready).trans h.2.2⟩

theorem popKnows_of_push {pc : PopPC T} (hok : Ok q) (hframe : PushFrame g q q')
    (h : PopKnows q pc) : PopKnows q' pc := by
  have hkept : q.ready q.popped.length = true →
      q'.ready q'.popped.length = true ∧
        (at_ q' q'.popped.length).val = (at_ q q.popped.length).val := by
    intro hready
    have hcap := hok.cap_bounds
    have hnot : ∀ val, ¬ Owns g q val q.popped.length := by
      intro val howns
      exact absurd (howns.ready.symm.trans hready) (by decide)
    obtain ⟨hsame, hval⟩ := hframe.kept q.popped.length ⟨le_rfl, by omega⟩ hnot
    rw [hframe.popped]
    exact ⟨hsame.trans hready, hval⟩
  have htaken : ∀ {tail : BitVec 64} {p : Nat × T}, Taken q tail p → Taken q' tail p := by
    intro tail p h
    refine ⟨?_, ?_, ?_⟩
    · rw [hframe.taken, hframe.popped]
      exact h.taken
    · rw [hframe.popped]
      exact h.tail
    · rw [hframe.popped]
      exact hframe.place h.place
  cases pc with
  | loadTail =>
    show q'.taken = q'.popped.length
    rwa [hframe.taken, hframe.popped]
  | loadSeq tail =>
    show q'.taken = q'.popped.length ∧ tail = BitVec.ofNat 64 q'.popped.length
    rwa [hframe.taken, hframe.popped]
  | storeTail =>
    refine ⟨?_, ?_, (hkept h.2.2).1⟩
    · rw [hframe.taken, hframe.popped]
      exact h.1
    · rw [hframe.popped]
      exact h.2.1
  | read =>
    obtain ⟨p, h, hval⟩ := h
    have hready := hok.ready_taken q.popped.length (by have := h.taken; omega)
    exact ⟨p, htaken h, (hkept hready).2.trans hval⟩
  | clear | storeSeq =>
    obtain ⟨p, h, hval⟩ := h
    exact ⟨p, htaken h, hval⟩

end Frames

section Steps

/-- What is known when a step of `Push` has taken its goroutine to `r`. -/
def PushResult (g : Nat) (q q' : Queue T) : PushPC T ⊕ Bool → Prop
  | .inl pc => PushKnows g q' pc
  | .inr ok => ok = false → Full q

variable {pc : PushPC T}

/-- What a step of `Push` does to the places. -/
inductive PushMove (g : Nat) (q : Queue T) (pc : PushPC T) (q' : Queue T) :
    PushPC T ⊕ Bool → Prop
  | look : pc.place = none → pc'.place = none → pc'.val = pc.val → q' = q →
      PushMove g q pc q' (.inl pc')
  | full : pc.place = none → q' = q → PushMove g q pc q' (.inr false)
  | win : pc.place = none → pc'.place = some q.pushed.length →
      pc'.val = pc.val → q'.pushed = q.pushed ++ [(g, pc.val)] → q'.ready = q.ready →
      PushMove g q pc q' (.inl pc')
  | write : pc.place = some pos → pc'.place = some pos →
      pc'.val = pc.val → q'.pushed = q.pushed → q'.ready = q.ready →
      PushMove g q pc q' (.inl pc')
  | publish : pc.place = some pos → q'.pushed = q.pushed →
      q'.ready = Function.update q.ready pos true → PushMove g q pc q' (.inr true)

theorem keeps_push {r : PushPC T ⊕ Bool} (hok : Ok q) (hknows : PushKnows g q pc)
    (htimely : Timely q pc) (hstep : pushStep g q pc = (q', r)) :
    PushMove g q pc q' r ∧ Ok q' ∧ PushFrame g q q' ∧ PushResult g q q' r := by
  cases pc with
  | loadHead =>
    cases hstep
    exact ⟨.look rfl rfl rfl rfl, hok, .refl g q, hok.head, le_rfl⟩
  | loadSeq =>
    obtain ⟨rfl, hwon⟩ := hknows
    simp only [pushStep] at hstep
    split at hstep
    · rename_i hdiff
      cases hstep
      exact ⟨.look rfl rfl rfl rfl, hok, .refl g q, rfl, hwon, hok.room_of_diff hwon hdiff⟩
    split_ifs at hstep with hdiff
    · cases hstep
      exact ⟨.full rfl rfl, hok, .refl g q, fun _ => hok.full_of_diff hwon htimely hdiff⟩
    · cases hstep
      exact ⟨.look rfl rfl rfl rfl, hok, .refl g q, trivial⟩
  | swap val =>
    obtain ⟨rfl, hwon, hroom⟩ := hknows
    simp only [pushStep] at hstep
    split_ifs at hstep with hhead
    · obtain rfl := hok.won_of_head hwon htimely hhead
      cases hstep
      rw [← hhead]
      have hplace : (win q g val).pushed[q.pushed.length]? = some (g, val) := by
        simp [win]
      exact ⟨.win rfl rfl rfl rfl rfl, ok_win hok hroom val, frame_win g q val, hok.head, hplace,
        hok.ready_eq_false le_rfl⟩
    · cases hstep
      exact ⟨.look rfl rfl rfl rfl, hok, .refl g q, trivial⟩
  | write =>
    obtain ⟨rfl, howns⟩ := hknows
    cases hstep
    exact ⟨.write rfl rfl rfl rfl rfl, ok_setVal hok (howns.inRing hok) (.inr howns.ready) _,
      frame_setVal hok howns _, rfl, howns.place, howns.ready⟩
  | written val _ pos =>
    obtain ⟨rfl, howns⟩ := hknows
    cases hstep
    exact ⟨.write rfl rfl rfl rfl rfl, ok_setVal hok (howns.inRing hok) (.inr howns.ready) _,
      frame_setVal hok howns _, rfl, ⟨howns.place, howns.ready⟩,
      congrArg Slot.val (at_setVal_self q pos _)⟩
  | storeSeq =>
    obtain ⟨rfl, howns, hval⟩ := hknows
    cases hstep
    exact ⟨.publish rfl rfl rfl, ok_publish hok howns hval, frame_publish hok howns, nofun⟩

theorem owns_of_place {pos : Nat} (hknows : PushKnows g q pc) (hplace : pc.place = some pos) :
    Owns g q pc.val pos := by
  cases pc with
  | loadHead | loadSeq | swap => cases hplace
  | write | written =>
    cases hplace
    exact hknows.2
  | storeSeq =>
    cases hplace
    exact hknows.2.1

/-- What is known when a step of `Pop` has taken the consumer to `r`. -/
def PopResult (q q' : Queue T) : PopPC T ⊕ Option (Cell T) → Prop
  | .inl pc => PopKnows q' pc ∧ q'.popped = q.popped
  | .inr none => q'.taken = q'.popped.length ∧ q' = q ∧ q.ready q.popped.length = false
  | .inr (some val) =>
    q'.taken = q'.popped.length ∧ q'.popped = q.popped ++ [val] ∧
      ∃ p, q.pushed[q.popped.length]? = some p ∧ val = .stored p.2

theorem keeps_pop {r : PopPC T ⊕ Option (Cell T)} {pc : PopPC T} (hok : Ok q)
    (hknows : PopKnows q pc) (hstep : popStep q pc = (q', r)) :
    Ok q' ∧ PopFrame q q' ∧ PopResult q q' r := by
  have hcap := hok.cap_bounds
  have hfirst : InRing q q.popped.length := ⟨le_rfl, by omega⟩
  cases pc with
  | loadTail =>
    have hknows : q.taken = q.popped.length := hknows
    cases hstep
    exact ⟨hok, .refl q, ⟨hknows, hknows ▸ hok.tail⟩, rfl⟩
  | loadSeq =>
    obtain ⟨htaken, rfl⟩ := hknows
    simp only [popStep] at hstep
    split_ifs at hstep with hdiff
    · cases hstep
      exact ⟨hok, .refl q, ⟨htaken, rfl, hok.ready_of_diff hdiff⟩, rfl⟩
    · cases hstep
      refine ⟨hok, .refl q, htaken, rfl, Bool.eq_false_iff.mpr fun hready => ?_⟩
      exact hdiff (hok.diff_of_ready hready)
  | storeTail =>
    obtain ⟨htaken, rfl, hready⟩ := hknows
    cases hstep
    have htail : q.tail = BitVec.ofNat 64 q.popped.length := htaken ▸ hok.tail
    rw [← htail]
    have hlt := hok.ready_lt _ hready
    obtain ⟨p, hplace⟩ : ∃ p, q.pushed[q.popped.length]? = some p :=
      ⟨_, List.getElem?_eq_getElem hlt⟩
    have hval := hok.val _ p htaken.le hready hplace
    exact ⟨ok_take hok htaken hready, ⟨rfl, rfl, rfl, prefix_refl _, fun _ _ _ => rfl⟩,
      ⟨p, ⟨congrArg (· + 1) htaken, htail, hplace⟩, hval⟩, rfl⟩
  | read =>
    obtain ⟨p, h, hval⟩ := hknows
    cases hstep
    refine ⟨hok, .refl q, ⟨p, h, ?_⟩, rfl⟩
    rwa [h.tail]
  | clear =>
    obtain ⟨p, h, hval⟩ := hknows
    cases hstep
    have hlt : q.popped.length < q.taken := by have := h.taken; omega
    rw [h.tail]
    refine ⟨ok_setVal hok hfirst (.inl hlt) _, ⟨rfl, rfl, rfl, prefix_refl _, ?_⟩,
      ⟨p, ⟨h.taken, rfl, h.place⟩, hval⟩, rfl⟩
    intro i hi hready
    have hne : i ≠ q.popped.length := by
      rintro rfl
      exact absurd (hok.ready_taken _ hlt) (by simp [hready])
    rw [hok.at_setVal hi hfirst hne]
  | storeSeq =>
    obtain ⟨p, h, rfl⟩ := hknows
    cases hstep
    have hlt : q.popped.length < q.taken := by have := h.taken; omega
    rw [h.tail]
    refine ⟨ok_release hok h.taken h.place,
      ⟨rfl, rfl, rfl, prefix_append .., ?_⟩, ?_, rfl, p, h.place, rfl⟩
    · intro i hi hready
      have hne : i ≠ q.popped.length := by
        rintro rfl
        exact absurd (hok.ready_taken _ hlt) (by simp [hready])
      exact congrArg Slot.val (hok.at_setSeq hi hfirst hne _)
    · show q.taken = (q.popped ++ [Cell.stored p.2]).length
      rw [h.taken, length_append, length_singleton]

end Steps

end CubeCore.QueueSteps
