import CubeCore.QueueSteps

namespace CubeCore.QueueOrder

open Interleaving MPSCQueue QueueSteps QueueTickets TransitionSystem Function Nat

variable {T : Type}

inductive PC (T : Type) where
  | idle
  | push (pc : PushPC T)
  | pop (pc : PopPC T)

inductive Act (T : Type) where
  | push (val : T)
  | pop
  | run

def PC.pushing : PushPC T ⊕ Bool → PC T
  | .inl pc => .push pc
  | .inr _ => .idle

def PC.popping : PopPC T ⊕ Option (Cell T) → PC T
  | .inl pc => .pop pc
  | .inr _ => .idle

/-- Every goroutine may push; only `consumer` pops. -/
def step (consumer g : Nat) (q : Queue T) : PC T → Act T → Option (Queue T × PC T)
  | .idle, .push val => some (q, .push (.loadHead val))
  | .idle, .pop => if g = consumer then some (q, .pop .loadTail) else none
  | .push pc, .run => some ((pushStep g q pc).1, PC.pushing (pushStep g q pc).2)
  | .pop pc, .run => some ((popStep q pc).1, PC.popping (popStep q pc).2)
  | _, _ => none

def next (consumer : Nat) :
    Threads (Queue T) (PC T) → Nat × Act T → Option (Threads (Queue T) (PC T)) :=
  Interleaving.next (step consumer)

def Initial (T : Type) (capacity : BitVec 64) (s : Threads (Queue T) (PC T)) : Prop :=
  s = ⟨newMPSCQueue T capacity, fun _ => .idle⟩

/-- Between its loads of `head` and of the sequence number at most `2 ^ 63 - cap` others overtake a
`Push`, and up to its CAS fewer than `2 ^ 64`. -/
def timely (s : Threads (Queue T) (PC T)) (l : Nat × Act T) : Prop :=
  match s.pc l.1 with
  | .push pc => Timely s.shared pc
  | _ => True

def Knows (consumer g : Nat) (q : Queue T) : PC T → Prop
  | .idle => g = consumer → q.taken = q.popped.length
  | .push pc => (g = consumer → q.taken = q.popped.length) ∧ PushKnows g q pc
  | .pop pc => g = consumer ∧ PopKnows q pc

section Invariant

variable {capacity : BitVec 64} {consumer g : Nat} {q q' : Queue T}
  {s : Threads (Queue T) (PC T)}

theorem ok_newMPSCQueue (T : Type) (capacity : BitVec 64) : Ok (newMPSCQueue T capacity) := by
  refine
    { width := newMPSCQueue_mask T capacity
      head := rfl
      tail := rfl
      popped_le := le_rfl
      taken_le := le_rfl
      room := zero_le _
      ready_lt := nofun
      ready_taken := nofun
      seq := ?_
      val := nofun
      popped := rfl }
  rintro i ⟨-, hlt⟩
  have hlt : i < (newMPSCQueue T capacity).cap := by simpa [newMPSCQueue] using hlt
  show ((newMPSCQueue T capacity).buf _).seq = BitVec.ofNat 64 i
  rw [index_of_width (newMPSCQueue_mask T capacity), mod_eq_of_lt hlt]
  rfl

theorem knows_of_push (hok : Ok q) (hframe : PushFrame g q q') (hne : g' ≠ g)
    (h : Knows consumer g' q pc) : Knows consumer g' q' pc := by
  have hidle : (g' = consumer → q.taken = q.popped.length) →
      g' = consumer → q'.taken = q'.popped.length := by
    intro h hg
    rw [hframe.taken, hframe.popped]
    exact h hg
  cases pc with
  | idle => exact hidle h
  | push => exact ⟨hidle h.1, pushKnows_of_push hok hframe hne h.2⟩
  | pop => exact ⟨h.1, popKnows_of_push hok hframe h.2⟩

theorem knows_of_pop (hok : Ok q) (hframe : PopFrame q q') (hne : g' ≠ consumer)
    (h : Knows consumer g' q pc) : Knows consumer g' q' pc := by
  cases pc with
  | idle => exact fun hg => absurd hg hne
  | push => exact ⟨fun hg => absurd hg hne, pushKnows_of_pop hok hframe h.2⟩
  | pop => exact absurd h.1 hne

theorem keeps_step (hok : Ok q) (hknows : Knows consumer g q pc)
    (htimely : ∀ push, pc = .push push → Timely q push)
    (hstep : step consumer g q pc a = some (q', pc')) :
    Keeps Ok (Knows consumer) g q q' pc' ∧ q'.mask = q.mask := by
  unfold step at hstep
  split at hstep
  · cases hstep
    exact ⟨⟨hok, ⟨hknows, trivial⟩, fun _ _ _ => id⟩, rfl⟩
  · split_ifs at hstep with hg
    cases hstep
    exact ⟨⟨hok, ⟨hg, hknows hg⟩, fun _ _ _ => id⟩, rfl⟩
  · rename_i push
    obtain ⟨hidle, hknows⟩ := hknows
    rcases hr : pushStep g q push with ⟨q₁, r⟩
    rw [hr] at hstep
    cases hstep
    obtain ⟨-, hok', hframe, hresult⟩ := keeps_push hok hknows (htimely push rfl) hr
    have hidle' : g = consumer → q₁.taken = q₁.popped.length := by
      intro hg
      rw [hframe.taken, hframe.popped]
      exact hidle hg
    refine ⟨⟨hok', ?_, fun g' pc' hne h => knows_of_push hok hframe hne h⟩, hframe.mask⟩
    cases r with
    | inl => exact ⟨hidle', hresult⟩
    | inr => exact hidle'
  · rename_i pop
    obtain ⟨rfl, hknows⟩ := hknows
    rcases hr : popStep q pop with ⟨q₁, r⟩
    rw [hr] at hstep
    cases hstep
    obtain ⟨hok', hframe, hresult⟩ := keeps_pop hok hknows hr
    refine ⟨⟨hok', ?_, fun g' pc' hne h => knows_of_pop hok hframe hne h⟩, hframe.mask⟩
    rcases r with pc | _ | val
    · exact ⟨rfl, hresult.1⟩
    · exact fun _ => hresult.1
    · exact fun _ => hresult.1
  · cases hstep

theorem holds_of_reach (h : Reach (next consumer) (Initial T capacity) timely s) :
    Holds Ok (Knows consumer) s := by
  refine Holds.of_reach h ?_ ?_
  · rintro _ rfl
    exact ⟨ok_newMPSCQueue T capacity, fun _ _ => rfl⟩
  intro s g a q' pc' hholds htimely hstep
  refine (keeps_step hholds.shared (hholds.knows g) ?_ hstep).1
  intro push hpush
  simpa only [timely, hpush] using htimely

theorem mask_of_reach (h : Reach (next consumer) (Initial T capacity) timely s) :
    s.shared.mask = (newMPSCQueue T capacity).mask := by
  induction h with
  | start hinit => rw [hinit]
  | step hreach htimely hnext ih =>
    rename_i s s' l
    obtain ⟨g, a⟩ := l
    have hholds := holds_of_reach hreach
    obtain ⟨q', pc', hstep, rfl⟩ := next_eq_some hnext
    refine (keeps_step hholds.shared (hholds.knows g) ?_ hstep).2.trans ih
    intro push hpush
    simpa only [timely, hpush] using htimely

end Invariant

/-- The queue is one, with the CAS on `head` as the moment of a `Push`. -/
structure Linear (capacity : BitVec 64) (s : Threads (Queue T) (PC T)) : Prop where
  order : s.shared.popped =
    (s.shared.pushed.take s.shared.popped.length).map fun p => .stored p.2
  finished : ∀ i < s.shared.popped.length, s.shared.ready i = true
  held : s.shared.pushed.length ≤ s.shared.popped.length + (newMPSCQueue T capacity).cap
  empty : ∀ g pc, s.pc g = .pop pc → (popStep s.shared pc).2 = .inr none →
    s.shared.ready s.shared.popped.length = false
  full : ∀ g pc, s.pc g = .push pc → Timely s.shared pc →
    (pushStep g s.shared pc).2 = .inr false → Full s.shared

theorem queue_linear (capacity : BitVec 64) (consumer : Nat) {s : Threads (Queue T) (PC T)}
    (h : Reach (next consumer) (Initial T capacity) timely s) : Linear capacity s := by
  have hholds := holds_of_reach h
  have hok := hholds.shared
  have hcap : s.shared.cap = (newMPSCQueue T capacity).cap := by
    rw [Queue.cap, mask_of_reach h, Queue.cap]
  refine ⟨hok.popped, ?_, hcap ▸ hok.room, ?_, ?_⟩
  · intro i hi
    exact hok.ready_taken i (lt_of_lt_of_le hi hok.popped_le)
  · intro g pc hpc hresult
    have hknows := hholds.knows g
    rw [hpc] at hknows
    rcases hr : popStep s.shared pc with ⟨q', r⟩
    obtain rfl : r = .inr none := by rw [← hresult, hr]
    exact (keeps_pop hok hknows.2 hr).2.2.2.2
  · intro g pc hpc htimely hresult
    have hknows := hholds.knows g
    rw [hpc] at hknows
    rcases hr : pushStep g s.shared pc with ⟨q', r⟩
    obtain rfl : r = .inr false := by rw [← hresult, hr]
    exact (keeps_push hok hknows.2 htimely hr).2.2.2 rfl

section Alone

/-- Timely steps while no more than `bound` places are in the ring. -/
def below (bound : Nat) (s : Threads (Queue T) (PC T)) (l : Nat × Act T) : Prop :=
  timely s l ∧ s.shared.pushed.length ≤ s.shared.popped.length + bound

abbrev Within (consumer : Nat) (capacity : BitVec 64) (bound : Nat) (q : Queue T)
    (f : Nat → PC T) : Prop :=
  Reach (next consumer) (Initial T capacity) (below bound) ⟨q, f⟩

variable {capacity : BitVec 64} {consumer g bound : Nat} {q q' : Queue T} {f : Nat → PC T}

theorem reach_push (h : Within consumer capacity bound q (update f g (.push pc)))
    (htimely : Timely q pc) (hheld : q.pushed.length ≤ q.popped.length + bound)
    (hstep : pushStep g q pc = (q', r)) :
    Within consumer capacity bound q' (update f g (PC.pushing r)) := by
  refine h.step (a := (g, .run)) ⟨?_, hheld⟩ ?_
  · simpa [timely] using htimely
  · simp [next, Interleaving.next, step, hstep]

theorem reach_pop (h : Within consumer capacity bound q (update f g (.pop pc)))
    (hheld : q.pushed.length ≤ q.popped.length + bound) (hstep : popStep q pc = (q', r)) :
    Within consumer capacity bound q' (update f g (PC.popping r)) := by
  refine h.step (a := (g, .run)) ⟨?_, hheld⟩ ?_
  · simp [timely]
  · simp [next, Interleaving.next, step, hstep]

theorem holds_of_below (h : Within consumer capacity bound q f) :
    Holds Ok (Knows consumer) ⟨q, f⟩ :=
  holds_of_reach (h.weaken fun _ _ hguard => hguard.1)

theorem update_idle (hidle : f g = .idle) : update f g .idle = f := by
  rw [← hidle]
  exact update_eq_self g f

variable (h : Within consumer capacity bound q f)
include h

theorem push_alone (hidle : f g = .idle) (hroom : q.pushed.length < q.popped.length + q.cap)
    (hheld : q.pushed.length < q.popped.length + bound) (val : T) :
    ∃ q', Within consumer capacity bound q' f ∧
      q'.pushed.length = q.pushed.length + 1 ∧ q'.popped.length = q.popped.length ∧
      q'.ready q.pushed.length = true := by
  have hok : Ok q := (holds_of_below h).shared
  have hcap := hok.cap_bounds
  have hready : q.ready q.pushed.length = false := hok.ready_eq_false le_rfl
  have hfree : ((q.slot q.head).seq - q.head).toInt = 0 := by
    have hring : InRing q q.pushed.length := ⟨hok.popped_le.trans hok.taken_le, hroom⟩
    have hseq := hok.seq _ hring
    rw [ticket, hready] at hseq
    rw [hok.head]
    show ((at_ q q.pushed.length).seq - _).toInt = 0
    rw [hseq]
    simp
  have hcall : Within consumer capacity bound q (update f g (.push (.loadHead val))) := by
    refine h.step (a := (g, .push val)) ⟨?_, hheld.le⟩ ?_
    · simp [timely, hidle]
    · simp [next, Interleaving.next, step, hidle]
  have hloaded := reach_push hcall trivial hheld.le rfl
  have hfound := reach_push (r := .inl (.swap val q.head q.pushed.length)) hloaded
    (show q.pushed.length + q.cap ≤ q.pushed.length + 2 ^ 63 by omega) hheld.le
    (if_pos hfree)
  have hwon := reach_push (r := .inl (.write val q.head q.pushed.length)) hfound
    (show q.pushed.length < q.pushed.length + 2 ^ 64 by omega) hheld.le
    (if_pos rfl)
  have hheld' : (q.pushed ++ [(g, val)]).length ≤ q.popped.length + bound := by
    rwa [List.length_append]
  have hdone : Within consumer capacity bound _ (update f g .idle) :=
    reach_push (reach_push (reach_push hwon trivial hheld' rfl) trivial hheld' rfl) trivial
      hheld' rfl
  rw [update_idle hidle] at hdone
  refine ⟨_, hdone, ?_, rfl, update_self ..⟩
  exact List.length_append

theorem pop_alone (hidle : f consumer = .idle) (hheld : q.pushed.length ≤ q.popped.length + bound)
    (hready : q.ready q.popped.length = true) :
    ∃ q', Within consumer capacity bound q' f ∧
      q'.pushed.length = q.pushed.length ∧ q'.popped.length = q.popped.length + 1 := by
  have hholds := holds_of_below h
  have hok : Ok q := hholds.shared
  have htaken : q.taken = q.popped.length := by
    have hknows : Knows consumer consumer q (f consumer) := hholds.knows consumer
    rw [hidle] at hknows
    exact hknows rfl
  have hfound : ((q.slot q.tail).seq - (q.tail + 1)).toInt = 0 := by
    rw [hok.tail, htaken]
    exact hok.diff_of_ready hready
  have hcall : Within consumer capacity bound q (update f consumer (.pop .loadTail)) := by
    refine h.step (a := (consumer, .pop)) ⟨?_, hheld⟩ ?_
    · simp [timely, hidle]
    · simp [next, Interleaving.next, step, hidle]
  have hloaded := reach_pop hcall hheld rfl
  have htail := reach_pop (r := .inl (.storeTail q.tail)) hloaded hheld (if_pos hfound)
  have hdone : Within consumer capacity bound _ (update f consumer .idle) :=
    reach_pop (reach_pop (reach_pop (reach_pop htail hheld rfl) hheld rfl) hheld rfl) hheld rfl
  rw [update_idle hidle] at hdone
  refine ⟨_, hdone, rfl, ?_⟩
  exact List.length_append

theorem cap_eq : q.cap = (newMPSCQueue T capacity).cap := by
  rw [Queue.cap, show q.mask = _ from mask_of_reach (h.weaken fun _ _ hguard => hguard.1),
    Queue.cap]

theorem cycles_alone (hidle : f consumer = .idle) (hbound : 0 < bound)
    (hempty : q.pushed.length = q.popped.length) (val : T) (n : Nat) :
    ∃ q', Within consumer capacity bound q' f ∧
      q'.pushed.length = q.pushed.length + n ∧ q'.popped.length = q.pushed.length + n := by
  induction n with
  | zero => exact ⟨q, h, rfl, hempty.symm⟩
  | succ n ih =>
    obtain ⟨q₁, h₁, hpushed₁, hpopped₁⟩ := ih
    have hcap := (holds_of_below h₁).shared.cap_bounds
    have hroom : q₁.pushed.length < q₁.popped.length + q₁.cap := by
      have hcap : 16 ≤ q₁.cap := hcap.1
      omega
    obtain ⟨q₂, h₂, hpushed₂, hpopped₂, hready⟩ := push_alone h₁ hidle hroom (by omega) val
    rw [hpushed₁, ← hpopped₁, ← hpopped₂] at hready
    obtain ⟨q₃, h₃, hpushed₃, hpopped₃⟩ := pop_alone h₂ hidle (by omega) hready
    exact ⟨q₃, h₃, by omega, by omega⟩

theorem fill_alone (hidle : f g = .idle) (val : T) (n : Nat)
    (hroom : q.pushed.length + n ≤ q.popped.length + (newMPSCQueue T capacity).cap)
    (hheld : q.pushed.length + n ≤ q.popped.length + bound) :
    ∃ q', Within consumer capacity bound q' f ∧
      q'.pushed.length = q.pushed.length + n ∧ q'.popped.length = q.popped.length := by
  induction n with
  | zero => exact ⟨q, h, rfl, rfl⟩
  | succ n ih =>
    obtain ⟨q₁, h₁, hpushed₁, hpopped₁⟩ := ih (by omega) (by omega)
    have hcap := cap_eq h₁
    obtain ⟨q₂, h₂, hpushed₂, hpopped₂, -⟩ := push_alone h₁ hidle (by omega) (by omega) val
    exact ⟨q₂, h₂, by omega, by omega⟩

end Alone

section Runs

def fresh : Threads (Queue Nat) (PC Nat) := ⟨newMPSCQueue Nat 16, fun _ => .idle⟩

theorem cap_fresh : (newMPSCQueue Nat 16).cap = 16 := by decide

theorem reach_loaded :
    Within 0 16 1 (newMPSCQueue Nat 16) (update (fun _ => .idle) 2 (.push (.loadSeq 7 0 0))) := by
  have hstart : Reach (next 0) (Initial Nat 16) (below 1) fresh := .start rfl
  have hcall : Within 0 16 1 (newMPSCQueue Nat 16)
      (update (fun _ => .idle) 2 (.push (.loadHead 7))) :=
    hstart.step (a := (2, .push 7)) ⟨trivial, zero_le _⟩ rfl
  exact reach_push hcall trivial (zero_le _) rfl

theorem rejected_of_half_turn (hok : Ok q) (hcap : q.cap = 16)
    (hpushed : q.pushed.length = 2 ^ 63 - 15) (hpopped : q.popped.length = 2 ^ 63 - 15) :
    (pushStep 2 q (.loadSeq 7 0 0)).2 = .inr false := by
  have hready : q.ready (2 ^ 63) = false := hok.ready_eq_false (by omega)
  have hseq : (q.slot 0).seq = BitVec.ofNat 64 (2 ^ 63) := by
    show (at_ q 0).seq = _
    rw [hok.at_eq (i := 2 ^ 63) (by rw [hcap]; rfl), hok.seq _ ⟨by omega, by omega⟩, ticket, hready]
    rfl
  simp only [pushStep, hseq]
  rw [if_neg (by decide), if_pos (by decide)]

/-- A `Push` sleeps: `2 ^ 63 - 15` values make an empty queue look full, and `2 ^ 64` bring `head`
back to a slot not released. -/
theorem overtaken_push_breaks_queue :
    (∃ s, Reach (next 0) (Initial Nat 16)
        (fun s _ => s.shared.pushed.length ≤ s.shared.popped.length + 1) s ∧
      s.shared.pushed.length = s.shared.popped.length ∧
      ∃ pc, s.pc 2 = .push pc ∧ (pushStep 2 s.shared pc).2 = .inr false) ∧
    ∃ s, Reach (next 0) (Initial Nat 16) anyStep s ∧ s.shared.cap = 16 ∧
      s.shared.pushed.length = s.shared.popped.length + 17 := by
  have hcap := cap_fresh
  have hempty : (newMPSCQueue Nat 16).pushed.length = 0 := rfl
  constructor
  · obtain ⟨q, hreach, hpushed, hpopped⟩ :=
      cycles_alone reach_loaded rfl (by omega) rfl 1 (2 ^ 63 - 15)
    rw [hempty, zero_add] at hpushed hpopped
    have hrejected := rejected_of_half_turn (holds_of_below hreach).shared
      ((cap_eq hreach).trans hcap) hpushed hpopped
    have hsame : q.pushed.length = q.popped.length := by rw [hpushed, hpopped]
    exact ⟨_, hreach.weaken fun _ _ hguard => hguard.2, hsame, _, rfl, hrejected⟩
  have hloaded : Within 0 16 16 (newMPSCQueue Nat 16)
      (update (fun _ => .idle) 2 (.push (.loadSeq 7 0 0))) :=
    reach_loaded.weaken fun _ _ hguard => ⟨hguard.1, hguard.2.trans (by omega)⟩
  have htimely : Timely (newMPSCQueue Nat 16) (.loadSeq 7 0 0) := by
    show _ + (newMPSCQueue Nat 16).cap ≤ _
    omega
  have hfound : Within 0 16 16 (newMPSCQueue Nat 16)
      (update (fun _ => .idle) 2 (.push (.swap 7 0 0))) :=
    reach_push hloaded htimely (zero_le _) rfl
  obtain ⟨q, hcycles, hpushed, hpopped⟩ := cycles_alone hfound rfl (by omega) rfl 1 (2 ^ 64 - 16)
  obtain ⟨q', hreach, hpushed', hpopped'⟩ :=
    fill_alone (g := 1) hcycles rfl 1 16 (by omega) (by omega)
  have hhead : q'.head = 0 := by
    have hturn : q'.pushed.length = 2 ^ 64 := by omega
    rw [(holds_of_below hreach).shared.head, hturn]
    rfl
  have hstep : next 0 ⟨q', update (fun _ => .idle) 2 (.push (.swap 7 0 0))⟩
      (2, .run) = some ⟨{ q' with head := 0 + 1, pushed := q'.pushed ++ [(2, 7)] },
        update (fun _ => .idle) 2 (.push (.write 7 0 q'.pushed.length))⟩ := by
    simp [next, Interleaving.next, step, pushStep, hhead, PC.pushing]
  refine ⟨_, hreach.any.step trivial hstep, (cap_eq hreach).trans hcap, ?_⟩
  show (q'.pushed ++ [(2, 7)]).length = q'.popped.length + 17
  rw [List.length_append, List.length_singleton]
  omega

instance (q : Queue T) : (pc : PushPC T) → Decidable (Timely q pc)
  | .loadSeq _ _ won => inferInstanceAs (Decidable (q.pushed.length + q.cap ≤ won + 2 ^ 63))
  | .swap _ _ won => inferInstanceAs (Decidable (q.pushed.length < won + 2 ^ 64))
  | .loadHead _ | .write _ _ _ | .written _ _ _ | .storeSeq _ _ _ =>
    inferInstanceAs (Decidable True)

instance (s : Threads (Queue T) (PC T)) (l : Nat × Act T) : Decidable (timely s l) :=
  match h : s.pc l.1 with
  | .push pc => decidable_of_iff (Timely s.shared pc) (by simp [timely, h])
  | .idle | .pop _ => isTrue (by simp [timely, h])

theorem queue_linear_two :
    ∃ s, Reach (next 0) (Initial Nat 1) timely s ∧
      s.shared.popped = [.stored 7, .stored 5] ∧ s.shared.pushed = [(2, 7), (1, 5)] ∧
      Linear 1 s := by
  refine exists_reach_imp (P := fun s => s.shared.popped = [.stored 7, .stored 5] ∧
      s.shared.pushed = [(2, 7), (1, 5)])
    (exists_of_run rfl (fun s l => decide (timely s l))
      [(1, .push 5), (1, .run), (1, .run), (2, .push 7), (2, .run), (2, .run), (2, .run),
        (1, .run), (1, .run), (1, .run), (1, .run), (1, .run), (1, .run), (1, .run),
        (0, .pop), (0, .run), (0, .run), (2, .run), (2, .run), (2, .run),
        (0, .pop), (0, .run), (0, .run), (0, .run), (0, .run), (0, .run), (0, .run),
        (0, .pop), (0, .run), (0, .run), (0, .run), (0, .run), (0, .run), (0, .run)]
      (fun _ _ _ htimely => of_decide_eq_true htimely) (by decide +kernel)) ?_
  rintro s hreach ⟨hpopped, hpushed⟩
  exact ⟨hpopped, hpushed, queue_linear 1 0 hreach⟩

end Runs

end CubeCore.QueueOrder
