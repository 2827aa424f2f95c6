import CubeCore.WorkerLoop
import CubeCore.QueueOrder

namespace CubeCore.AcceptedTasks

open Interleaving MPSCQueue QueueSteps QueueTickets TransitionSystem WorkerLoop Function List Option
open Nat

variable {T : Type}

def tasksOf (g : Nat) (tasks : List (Nat × T)) : List (Nat × T) :=
  tasks.filter fun p => p.1 = g

theorem tasksOf_snoc_self (g : Nat) (tasks : List (Nat × T)) (task : T) :
    tasksOf g (tasks ++ [(g, task)]) = tasksOf g tasks ++ [(g, task)] := by
  simp [tasksOf]

variable {g : Nat}

theorem tasksOf_snoc_ne (hne : g' ≠ g) (tasks : List (Nat × T)) (task : T) :
    tasksOf g' (tasks ++ [(g, task)]) = tasksOf g' tasks := by
  simp [tasksOf, hne.symm]

/-- The task of a `TryCast` that has won its CAS and has not returned. -/
def inFlight (g : Nat) : PC T → List (Nat × T)
  | .push pc => (pc.place.map fun _ => (g, pc.val)).toList
  | .signal task _ => [(g, task)]
  | _ => []

/-- The loop has found the queue empty and has not gone back to it. -/
def Resting : PC T → Prop
  | .loadClosed | .wait => True
  | _ => False

def Draining : PC T → Prop
  | .pop draining _ | .handle draining _ | .release draining _ => draining = true
  | .stopped => True
  | _ => False

def handling : PC T → List (Cell T)
  | .handle _ task => [task]
  | _ => []

def releasing : PC T → List (Cell T)
  | .release _ task => [task]
  | _ => []

structure Inv (worker : Nat) (s : Threads (Worker T) (PC T)) : Prop where
  owned : ∀ i p, s.shared.queue.pushed[i]? = some p → s.shared.queue.ready i = false →
    ∃ pc, s.pc p.1 = .push pc ∧ pc.place = some i
  woken : Resting (s.pc worker) →
    s.shared.queue.ready s.shared.queue.popped.length = true →
    s.shared.notify = true ∨ ∃ g task, s.pc g = .signal task s.shared.queue.popped.length
  shut : s.shared.closed = true → ∀ g pc, s.pc g ≠ .push pc
  draining : Draining (s.pc worker) → s.shared.closed = true
  stopped : s.pc worker = .stopped →
    s.shared.queue.popped.length = s.shared.queue.pushed.length
  handled : s.shared.queue.popped = s.shared.handled ++ handling (s.pc worker)
  released : s.shared.handled = s.shared.released ++ releasing (s.pc worker)
  casts : ∀ g, tasksOf g s.shared.queue.pushed =
    tasksOf g s.shared.accepted ++ inFlight g (s.pc g)

variable {worker : Nat} {queueCap : BitVec 64} {s : Threads (Worker T) (PC T)}

theorem holds_initial (h : Initial T worker queueCap s) : Holds QueueOk (Knows worker) s := by
  rw [h]
  refine ⟨QueueOrder.ok_newMPSCQueue T queueCap, fun g => ?_⟩
  rcases eq_or_ne g worker with rfl | hg
  · simp [Knows, PopKnows, newWorker, newMPSCQueue]
  · simp [Knows, hg]

theorem inv_initial (h : Initial T worker queueCap s) : Inv worker s := by
  rw [h]
  have hpush : ∀ g (pc : PushPC T),
      update (fun _ => PC.idle) worker (.pop false .loadTail) g ≠ .push pc := by
    intro g pc
    by_cases hg : g = worker <;> simp [hg]
  refine
    { owned := by simp [newWorker, newMPSCQueue]
      woken := by simp [Resting]
      shut := fun _ => hpush
      draining := by simp [Draining]
      stopped := by simp
      handled := by simp [newWorker, newMPSCQueue, handling]
      released := by simp [newWorker, releasing]
      casts := ?_ }
  intro g
  by_cases hg : g = worker <;> simp [hg, newWorker, newMPSCQueue, tasksOf, inFlight]

section Steps

variable {worker g : Nat} {s : Threads (Worker T) (PC T)} {w' : Worker T} {pc pc' : PC T}
  (hinv : Inv worker s) (hpc : s.pc g = pc) (heffect : Effect g s.shared pc w' pc')
include hinv hpc heffect

theorem owned_step (hplace : w'.queue.pushed[i]? = some p) (hready : w'.queue.ready i = false) :
    ∃ pc, update s.pc g pc' p.1 = .push pc ∧ pc.place = some i := by
  -- an owner that is not the goroutine of the step stays where it is
  have hother : s.shared.queue.pushed[i]? = some p → s.shared.queue.ready i = false →
      (∀ push, pc = .push push → push.place = some i →
        ∃ push', pc' = .push push' ∧ push'.place = some i) →
      ∃ pc, update s.pc g pc' p.1 = .push pc ∧ pc.place = some i := by
    intro hplace hready hown
    obtain ⟨push, hpush, hpos⟩ := hinv.owned i p hplace hready
    by_cases hg : p.1 = g
    · rw [hg] at hpush ⊢
      rw [update_self]
      exact hown push (hpc.symm.trans hpush) hpos
    · rw [update_of_ne hg]
      exact ⟨push, hpush, hpos⟩
  cases heffect with
  | look hnone | full hnone =>
    refine hother hplace hready ?_
    rintro push ⟨⟩ hpos
    cases hnone.symm.trans hpos
  | @win push q' push' hnone hsome _ hpushed hready' =>
    have hplace : q'.pushed[i]? = some p := hplace
    have hready : q'.ready i = false := hready
    rw [hpushed] at hplace
    rw [hready'] at hready
    rcases lt_or_ge i s.shared.queue.pushed.length with hlt | hge
    · rw [List.getElem?_append_left hlt] at hplace
      refine hother hplace hready ?_
      rintro push ⟨⟩ hpos
      cases hnone.symm.trans hpos
    have hlt := (List.getElem?_eq_some_iff.mp hplace).1
    rw [length_append, length_singleton] at hlt
    obtain rfl : i = s.shared.queue.pushed.length := by omega
    rw [List.getElem?_append_right le_rfl, Nat.sub_self] at hplace
    obtain rfl : (g, push.val) = p := some.inj hplace
    exact ⟨push', update_self .., hsome⟩
  | @write _ push _ push' hpos hpos' _ hpushed hready' =>
    refine hother (hpushed ▸ hplace) (hready' ▸ hready) ?_
    rintro push ⟨⟩ hi
    exact ⟨push', rfl, hpos'.trans (hpos.symm.trans hi)⟩
  | @publish pos push q' hpos _ hpushed hready' =>
    have hready : q'.ready i = false := hready
    rw [hready'] at hready
    have hne : i ≠ pos := by
      rintro rfl
      simp at hready
    rw [update_of_ne hne] at hready
    refine hother (hpushed ▸ hplace) hready ?_
    rintro push ⟨⟩ hi
    exact absurd (some.inj (hi.symm.trans hpos)) hne
  | pop hpushed hready' | popped hpushed hready' =>
    exact hother (hpushed ▸ hplace) (hready' ▸ hready) nofun
  | _ => exact hother hplace hready nofun

theorem shut_step (hclose : pc' = .closing → ∀ g pc, s.pc g ≠ .push pc)
    (hclosed : w'.closed = true) (g' : Nat) (push : PushPC T) :
    update s.pc g pc' g' ≠ .push push := by
  intro hpush
  have hother : (∀ push', pc' ≠ .push push') → s.pc g' = .push push := by
    intro hnot
    have hne : g' ≠ g := by
      rintro rfl
      rw [update_self] at hpush
      exact hnot push hpush
    rwa [update_of_ne hne] at hpush
  cases heffect with
  | close => exact hclose rfl g' push (hother nofun)
  | passed _ hopen => exact absurd (hopen.symm.trans hclosed) (by decide)
  | look | full | win | write | publish => exact hinv.shut hclosed g _ hpc
  | _ => exact hinv.shut hclosed g' push (hother nofun)

theorem casts_step (g' : Nat) :
    tasksOf g' w'.queue.pushed = tasksOf g' w'.accepted ++ inFlight g' (update s.pc g pc' g') := by
  have hcasts := hinv.casts g'
  rcases eq_or_ne g' g with rfl | hg
  · rw [hpc] at hcasts
    rw [update_self]
    cases heffect with
    | look hnone hnone' => simpa [inFlight, hnone, hnone'] using hcasts
    | full hnone => simpa [inFlight, hnone] using hcasts
    | win hnone hsome hval hpushed =>
      rw [hpushed, tasksOf_snoc_self, hcasts]
      simp [inFlight, hnone, hsome, hval]
    | write hpos hpos' hval hpushed =>
      rw [hpushed, hcasts]
      simp [inFlight, hpos, hpos', hval]
    | publish hpos _ hpushed =>
      rw [hpushed, hcasts]
      simp [inFlight, hpos]
    | signal =>
      rw [tasksOf_snoc_self, hcasts]
      simp [inFlight]
    | pop hpushed | popped hpushed =>
      exact (congrArg _ hpushed).trans hcasts
    | _ => exact hcasts
  · rw [update_of_ne hg]
    cases heffect with
    | win _ _ _ hpushed =>
      rwa [hpushed, tasksOf_snoc_ne hg]
    | signal =>
      rwa [tasksOf_snoc_ne hg]
    | write _ _ _ hpushed | publish _ _ hpushed
    | pop hpushed | popped hpushed =>
      exact (congrArg _ hpushed).trans hcasts
    | _ => exact hcasts

variable (hknows : Knows worker g s.shared pc)
include hknows

theorem woken_step (hresting : Resting (update s.pc g pc' worker))
    (hready : w'.queue.ready w'.queue.popped.length = true) :
    w'.notify = true ∨ ∃ g' task, update s.pc g pc' g' = .signal task w'.queue.popped.length := by
  -- a step that only looks keeps a goroutine that is about to signal
  have hsame : Resting (s.pc worker) → s.shared.queue.ready s.shared.queue.popped.length = true →
      (∀ task, pc ≠ .signal task s.shared.queue.popped.length) →
      s.shared.notify = true ∨
        ∃ g' task, update s.pc g pc' g' = .signal task s.shared.queue.popped.length := by
    intro hresting hready hnot
    refine (hinv.woken hresting hready).imp_right ?_
    rintro ⟨g', task, hsignal⟩
    have hne : g' ≠ g := by
      rintro rfl
      exact hnot task (hpc.symm.trans hsignal)
    exact ⟨g', task, (update_of_ne hne ..).trans hsignal⟩
  have hworker : g ≠ worker → Resting (s.pc worker) := by
    intro hne
    rwa [update_of_ne hne.symm] at hresting
  cases heffect with
  | cast | refused | passed | close =>
    exact hsame (hworker hknows) hready nofun
  | look | full => exact hsame (hworker hknows.1) hready nofun
  | win _ _ _ _ hready' hpopped | write _ _ _ _ hready' hpopped =>
    rw [hready', hpopped] at hready
    rw [hpopped]
    exact hsame (hworker hknows.1) hready nofun
  | @publish pos push _ _ _ _ hready' hpopped =>
    rw [hready', hpopped] at hready
    rw [hpopped]
    by_cases hfirst : s.shared.queue.popped.length = pos
    · exact .inr ⟨g, push.val, by rw [update_self, hfirst]⟩
    · rw [update_of_ne hfirst] at hready
      exact hsame (hworker hknows.1) hready nofun
  | signal | wake => exact .inl rfl
  | block =>
    obtain ⟨rfl, -⟩ := hknows
    exact hsame (by rw [hpc]; trivial) hready nofun
  | empty hempty | stop hempty => exact absurd (hempty.symm.trans hready) (by decide)
  | pop | popped | handle | release | drain | woken =>
    obtain ⟨rfl, -⟩ := hknows
    rw [update_self] at hresting
    cases hresting

theorem draining_step (hdraining : Draining (update s.pc g pc' worker)) : w'.closed = true := by
  have hworker : g ≠ worker → s.shared.closed = true := by
    intro hne
    rw [update_of_ne hne.symm] at hdraining
    exact hinv.draining hdraining
  have hsame : g = worker → (Draining pc' → Draining pc) → s.shared.closed = true := by
    rintro rfl hdraining'
    rw [update_self] at hdraining
    exact hinv.draining (hpc ▸ hdraining' hdraining)
  cases heffect with
  | cast | refused | passed | signal | wake => exact hworker hknows
  | look | full | win | write | publish => exact hworker hknows.1
  | close => rfl
  | drain hclosed => exact hclosed
  | pop | popped | handle | release => exact hsame hknows.1 id
  | stop => exact hsame hknows.1 fun _ => rfl
  | empty | block | woken => exact hsame hknows.1 nofun

theorem stopped_step (hok : QueueOk s.shared) (hstopped : update s.pc g pc' worker = .stopped) :
    w'.queue.popped.length = w'.queue.pushed.length := by
  have hworker : g ≠ worker → s.pc worker = .stopped := by
    intro hne
    rwa [update_of_ne hne.symm] at hstopped
  have hown : g = worker → pc' = .stopped := by
    rintro rfl
    rwa [update_self] at hstopped
  -- nobody pushes once the loop has stopped
  have hpush : ∀ push, pc = .push push → g = worker := by
    rintro push rfl
    by_contra hne
    have hdraining : Draining (s.pc worker) := by
      rw [hworker hne]
      trivial
    exact hinv.shut (hinv.draining hdraining) g push hpc
  cases heffect with
  | cast | refused | passed | signal | wake | close => exact hinv.stopped (hworker hknows)
  | look | full | win | write | publish => exact absurd (hpush _ rfl) hknows.1
  | @stop push hempty =>
    obtain ⟨rfl, -⟩ := hknows
    have hclosed : s.shared.closed = true := hinv.draining (by rw [hpc]; rfl)
    apply le_antisymm (hok.popped_le.trans hok.taken_le)
    apply Nat.le_of_not_lt
    intro hlt
    obtain ⟨push, hpush, -⟩ := hinv.owned _ _ (List.getElem?_eq_getElem hlt) hempty
    exact hinv.shut hclosed _ push hpush
  | pop | popped | handle | release | drain | empty | block | woken => cases hown hknows.1

theorem handled_step : w'.queue.popped = w'.handled ++ handling (update s.pc g pc' worker) := by
  rcases eq_or_ne g worker with rfl | hg
  · have hhandled := hinv.handled
    rw [hpc] at hhandled
    rw [update_self]
    cases heffect with
    | win hnone hsome hval hpushed hready hpopped | write hpos hpos' hval hpushed hready hpopped
    | publish _ _ _ _ hpopped | pop _ _ hpopped =>
      exact hpopped.trans hhandled
    | popped _ _ hpopped =>
      rw [hpopped, hhandled]
      simp [handling]
    | handle =>
      rw [hhandled]
      simp [handling]
    | _ => exact hhandled
  · rw [update_of_ne hg.symm]
    cases heffect with
    | win hnone hsome hval hpushed hready hpopped | write hpos hpos' hval hpushed hready hpopped
    | publish _ _ _ _ hpopped => exact hpopped.trans hinv.handled
    | pop | popped | handle => exact absurd hknows.1 hg
    | _ => exact hinv.handled

theorem released_step : w'.handled = w'.released ++ releasing (update s.pc g pc' worker) := by
  rcases eq_or_ne g worker with rfl | hg
  · have hreleased := hinv.released
    rw [hpc] at hreleased
    rw [update_self]
    cases heffect with
    | handle | release =>
      rw [hreleased]
      simp [releasing]
    | _ => exact hreleased
  · rw [update_of_ne hg.symm]
    cases heffect with
    | handle | release => exact absurd hknows.1 hg
    | _ => exact hinv.released

end Steps

structure Kept (worker : Nat) (s : Threads (Worker T) (PC T)) : Prop where
  holds : Holds QueueOk (Knows worker) s
  inv : Inv worker s

theorem casting_ne_closing (pc : PushPC T) (r : PushPC T ⊕ Bool) : PC.casting pc r ≠ .closing := by
  rcases r with pc' | _ | _ <;> nofun

theorem looping_ne_closing (draining : Bool) (r : PopPC T ⊕ Option (Cell T)) :
    PC.looping draining r ≠ .closing := by
  rcases r with pc | _ | task
  · nofun
  · cases draining <;> nofun
  · nofun

variable {a : Act T}

theorem close_of_closing (hstep : step g w pc a = some (w', .closing)) : a = .close := by
  cases a with
  | close => rfl
  | cast => cases pc <;> simp [step] at hstep
  | run =>
    cases pc with
    | push pc =>
      exact absurd (Prod.mk.inj (some.inj hstep)).2 (casting_ne_closing pc _)
    | pop draining =>
      exact absurd (Prod.mk.inj (some.inj hstep)).2 (looping_ne_closing draining _)
    | check | loadClosed =>
      simp only [step] at hstep
      split at hstep <;> cases hstep
    | _ => simp [step] at hstep

theorem Kept.next {s' l} (hkept : Kept worker s) (horderly : orderly s l)
    (hnext : WorkerLoop.next s l = some s') : Kept worker s' := by
  obtain ⟨g, a⟩ := l
  obtain ⟨hholds, hinv⟩ := hkept
  have hknows := hholds.knows g
  constructor
  · refine hholds.next ?_ hnext
    rintro g' a' w' pc' ⟨⟩ hstep
    exact (keeps_step hholds.shared hknows horderly.1 hstep).1
  obtain ⟨w', pc', hstep, rfl⟩ := next_eq_some hnext
  obtain ⟨-, heffect⟩ := keeps_step hholds.shared hknows horderly.1 hstep
  have hclose : pc' = .closing → ∀ g pc, s.pc g ≠ .push pc := by
    rintro rfl
    exact horderly.2 (close_of_closing hstep)
  exact
    { owned := fun _ _ => owned_step hinv rfl heffect
      woken := woken_step hinv rfl heffect hknows
      shut := shut_step hinv rfl heffect hclose
      draining := draining_step hinv rfl heffect hknows
      stopped := stopped_step hinv rfl heffect hknows hholds.shared
      handled := handled_step hinv rfl heffect hknows
      released := released_step hinv rfl heffect hknows
      casts := casts_step hinv rfl heffect }

theorem kept_of_reach (h : Reach next (Initial T worker queueCap) orderly s) : Kept worker s :=
  h.invariant (fun _ hinit => ⟨holds_initial hinit, inv_initial hinit⟩)
    fun _ _ _ hkept horderly hnext => hkept.next horderly hnext

section Progress

variable {worker i : Nat} {s s' : Threads (Worker T) (PC T)}

/-- The `TryCast` calls of all places up to `i` have stored and signalled. -/
def Settled (s : Threads (Worker T) (PC T)) (i : Nat) : Prop :=
  ∀ j ≤ i, s.shared.queue.ready j = true ∧ ∀ g task, s.pc g ≠ .signal task j

theorem ready_effect (heffect : Effect g w pc w' pc') (hready : w.queue.ready j = true) :
    w'.queue.ready j = true ∧ ∀ task, pc' ≠ .signal task j := by
  cases heffect with
  | win _ _ _ _ hready' | write _ _ _ _ hready'
  | pop _ hready' | popped _ hready' => exact ⟨hready' ▸ hready, nofun⟩
  | @publish pos _ _ _ hfalse _ hready' =>
    have hne : j ≠ pos := by
      rintro rfl
      exact absurd (hready.symm.trans hfalse) (by decide)
    constructor
    · rwa [hready', update_of_ne hne]
    · rintro task ⟨⟩
      exact hne rfl
  | _ => exact ⟨hready, nofun⟩

/-- Steps of the loop until the task it has, or will take next, is released. -/
def stepsLeft : PC T → Nat
  | .loadClosed => 10
  | .wait => 9
  | .pop _ .loadTail => 8
  | .pop _ (.loadSeq _) => 7
  | .pop _ (.storeTail _) => 6
  | .pop _ (.read _) => 5
  | .pop _ (.clear _ _) => 4
  | .pop _ (.storeSeq _ _) => 3
  | .handle _ _ => 2
  | .release _ _ => 1
  | _ => 0

def rank (worker i : Nat) (s : Threads (Worker T) (PC T)) : Nat :=
  10 * (i - s.shared.released.length) + stepsLeft (s.pc worker)

theorem Settled.next (hsettled : Settled s i) (hkept : Kept worker s) {l} (horderly : orderly s l)
    (hnext : next s l = some s') : Settled s' i := by
  obtain ⟨g, a⟩ := l
  obtain ⟨w', pc', hstep, rfl⟩ := next_eq_some hnext
  obtain ⟨-, heffect⟩ := keeps_step hkept.holds.shared (hkept.holds.knows g) horderly.1 hstep
  intro j hj
  obtain ⟨hready, hsignal⟩ := hsettled j hj
  obtain ⟨hready', hsignal'⟩ := ready_effect heffect hready
  refine ⟨hready', fun g' task => ?_⟩
  show update s.pc g pc' g' ≠ .signal task j
  rcases eq_or_ne g' g with rfl | hg
  · rw [update_self]
    exact hsignal' task
  · rw [update_of_ne hg]
    exact hsignal g' task

variable (hkept : Kept worker s)
include hkept

theorem released_next (horderly : orderly s (g, a)) (hnext : next s (g, a) = some s') :
    s.shared.released <+: s'.shared.released ∧
      (g ≠ worker → s'.shared.released = s.shared.released ∧ s'.pc worker = s.pc worker) := by
  have hknows := hkept.holds.knows g
  obtain ⟨w', pc', hstep, rfl⟩ := next_eq_some hnext
  obtain ⟨-, heffect⟩ := keeps_step hkept.holds.shared hknows horderly.1 hstep
  have hpc : g ≠ worker → update s.pc g pc' worker = s.pc worker :=
    fun hne => update_of_ne hne.symm ..
  revert hknows
  generalize s.pc g = pc at heffect
  intro hknows
  cases heffect with
  | release =>
    exact ⟨prefix_append .., fun hne => absurd hknows.1 hne⟩
  | _ => exact ⟨prefix_refl _, fun hne => ⟨rfl, hpc hne⟩⟩

theorem loop_step (hsettled : Settled s i) (hunreleased : s.shared.released.length ≤ i) :
    ∃ s', next s (worker, .run) = some s' ∧
      (i < s'.shared.released.length ∨ rank worker i s' < rank worker i s) := by
  obtain ⟨hholds, hinv⟩ := hkept
  have hknows := hholds.knows worker
  have hok : Ok s.shared.queue := hholds.shared
  -- outside a handler, the next task is at the first place of the ring, and ready
  have hfirst : handling (s.pc worker) = [] → releasing (s.pc worker) = [] →
      s.shared.queue.popped.length ≤ i := by
    intro hhandling hreleasing
    rw [hinv.handled, hhandling, hinv.released, hreleasing]
    simpa using hunreleased
  have hgo : ∀ w' pc', step worker s.shared (s.pc worker) .run = some (w', pc') →
      (i < w'.released.length ∨
        10 * (i - w'.released.length) + stepsLeft pc' <
          10 * (i - s.shared.released.length) + stepsLeft (s.pc worker)) →
      ∃ s', next s (worker, .run) = some s' ∧
        (i < s'.shared.released.length ∨ rank worker i s' < rank worker i s) := by
    intro w' pc' hstep hrank
    refine ⟨⟨w', update s.pc worker pc'⟩, ?_, ?_⟩
    · simp [WorkerLoop.next, Interleaving.next, hstep]
    · simpa [rank] using hrank
  cases hpc : s.pc worker with
  | idle | check | signal | closing =>
    rw [hpc] at hknows
    exact absurd rfl hknows
  | push =>
    rw [hpc] at hknows
    exact absurd rfl hknows.1
  | pop draining pop =>
    rw [hpc] at hknows hgo hfirst
    have hle := hfirst rfl rfl
    cases pop with
    | loadSeq =>
      obtain ⟨-, -, rfl⟩ := hknows
      have hfound := hok.diff_of_ready (hsettled _ hle).1
      have hpop : popStep s.shared.queue (.loadSeq _) =
          (s.shared.queue, .inl (.storeTail _)) := if_pos hfound
      refine hgo _ (.pop draining (.storeTail _)) (by simp only [step, hpop]; rfl) (.inr ?_)
      simp only [stepsLeft]
      omega
    | _ =>
      refine hgo _ _ rfl (.inr ?_)
      simp only [popStep, PC.looping, stepsLeft]
      omega
  | handle =>
    rw [hpc] at hgo
    refine hgo _ _ rfl (.inr ?_)
    simp only [stepsLeft]
    omega
  | release =>
    rw [hpc] at hgo
    refine hgo _ _ rfl ?_
    simp only [length_append, length_singleton, stepsLeft]
    omega
  | loadClosed =>
    rw [hpc] at hgo
    cases hclosed : s.shared.closed with
    | true =>
      refine hgo _ _ (if_pos hclosed) (.inr ?_)
      simp only [stepsLeft]
      omega
    | false =>
      refine hgo _ _ (if_neg (by simp [hclosed])) (.inr ?_)
      simp only [stepsLeft]
      omega
  | wait =>
    have hresting : Resting (s.pc worker) := by
      rw [hpc]
      trivial
    rw [hpc] at hgo hfirst
    obtain ⟨hready, hsignal⟩ := hsettled _ (hfirst rfl rfl)
    rcases hinv.woken hresting hready with hnotify | ⟨g, task, hg⟩
    · refine hgo _ _ (if_pos hnotify) (.inr ?_)
      simp only [stepsLeft]
      omega
    · exact absurd hg (hsignal g task)
  | stopped =>
    rw [hpc] at hfirst
    have hlt := hok.ready_lt i (hsettled i le_rfl).1
    have hall := hinv.stopped hpc
    have hle := hfirst rfl rfl
    omega

theorem run_of_worker (hnext : next s (worker, a) = some s') : a = .run := by
  have hknows := hkept.holds.knows worker
  obtain ⟨w', pc', hstep, -⟩ := next_eq_some hnext
  revert hknows hstep
  cases s.pc worker with
  | idle => exact fun hknows => absurd rfl hknows
  | _ =>
    intro _ hstep
    cases a with
    | run => rfl
    | cast | close => cases hstep

theorem released_of_path (hsettled : Settled s i) (hpath : Path next orderly s as s')
    (hcount : rank worker i s < as.countP fun l => decide (l.1 = worker)) :
    i < s'.shared.released.length := by
  refine hpath.eventually (fun s => Kept worker s ∧ Settled s i)
    (fun s => i < s.shared.released.length) (rank worker i) _ ?_ ?_ ?_
    ⟨hkept, hsettled⟩ (.inr hcount)
  · rintro s l s' ⟨hkept, hsettled⟩ horderly hnext
    exact ⟨hkept.next horderly hnext, hsettled.next hkept horderly hnext⟩
  · rintro s ⟨g, a⟩ s' ⟨hkept, -⟩ horderly hnext hdone
    exact lt_of_lt_of_le hdone (released_next hkept horderly hnext).1.length_le
  · rintro s ⟨g, a⟩ s' ⟨hkept, hsettled⟩ horderly hnext hnot
    rcases eq_or_ne g worker with rfl | hg
    · obtain rfl := run_of_worker hkept hnext
      obtain ⟨t, ht, hrank⟩ := loop_step hkept hsettled (not_lt.mp hnot)
      obtain rfl : t = s' := some.inj (ht.symm.trans hnext)
      exact hrank.imp_right fun hlt => ⟨hlt.le, fun _ => hlt⟩
    · obtain ⟨hreleased, hpc⟩ := (released_next hkept horderly hnext).2 hg
      refine .inr ⟨?_, fun hhelpful => absurd (of_decide_eq_true hhelpful) hg⟩
      rw [rank, rank, hreleased, hpc]

theorem settled_of_idle (hidle : ∀ g, g ≠ worker → s.pc g = .idle)
    (hi : i < s.shared.queue.pushed.length) : Settled s i := by
  have hnot : ∀ g pc, s.pc g = .push pc → False := by
    intro g pc hpc
    have hknows := hkept.holds.knows g
    rw [hpc] at hknows
    cases (hidle g hknows.1).symm.trans hpc
  intro j hj
  constructor
  · apply (Bool.eq_false_or_eq_true _).resolve_right
    intro hready
    obtain ⟨pc, hpc, -⟩ :=
      hkept.inv.owned j _ (List.getElem?_eq_getElem (lt_of_le_of_lt hj hi)) hready
    exact hnot _ pc hpc
  intro g task hsignal
  have hknows := hkept.holds.knows g
  rw [hsignal] at hknows
  cases (hidle g hknows).symm.trans hsignal

end Progress

/-- The tasks are handled and released in the order in which they won their CAS. A settled task is
released after enough steps of the loop, and all are when it has stopped. -/
structure Outcome (worker : Nat) (s : Threads (Worker T) (PC T)) : Prop where
  handled : s.shared.handled =
    (s.shared.queue.pushed.take s.shared.handled.length).map fun p => .stored p.2
  released : ∃ task, s.shared.handled = s.shared.released ++ task ∧ task.length ≤ 1
  order : ∀ g, tasksOf g s.shared.queue.pushed =
    tasksOf g s.shared.accepted ++ inFlight g (s.pc g)
  settled : (∀ g, g ≠ worker → s.pc g = .idle) →
    ∀ i < s.shared.queue.pushed.length, Settled s i
  runs : ∀ i, Settled s i → s.shared.released.length ≤ i →
    ∃ s', next s (worker, .run) = some s'
  progress : ∀ i, Settled s i → ∃ n, ∀ as s', Path next orderly s as s' →
    (n ≤ as.countP fun l => decide (l.1 = worker)) → i < s'.shared.released.length
  stopped : s.pc worker = .stopped →
    s.shared.released = s.shared.queue.pushed.map fun p => .stored p.2

theorem accepted_tasks (worker : Nat) (queueCap : BitVec 64) {s : Threads (Worker T) (PC T)}
    (h : Reach next (Initial T worker queueCap) orderly s) : Outcome worker s := by
  have hkept := kept_of_reach h
  have hinv := hkept.inv
  have hok : Ok s.shared.queue := hkept.holds.shared
  refine
    { handled := ?_
      released := ?_
      order := hinv.casts
      settled := fun hidle i hi => settled_of_idle hkept hidle hi
      runs := ?_
      progress := ?_
      stopped := ?_ }
  · have hpopped := hok.popped
    rw [hinv.handled] at hpopped
    have htake := congrArg (take s.shared.handled.length) hpopped
    rw [take_left, ← map_take, take_take, length_append, min_eq_left (le_add_right ..)] at htake
    exact htake
  · refine ⟨releasing (s.pc worker), hinv.released, ?_⟩
    cases s.pc worker <;> simp [releasing]
  · intro i hsettled hle
    obtain ⟨s', hnext, -⟩ := loop_step hkept hsettled hle
    exact ⟨s', hnext⟩
  · intro i hsettled
    exact ⟨rank worker i s + 1, fun as s' hpath hcount =>
      released_of_path hkept hsettled hpath hcount⟩
  · intro hstopped
    have hall := hinv.stopped hstopped
    have hhandled := hinv.handled
    have hreleased := hinv.released
    rw [hstopped] at hhandled hreleased
    have hsame : s.shared.queue.popped = s.shared.released := by
      simpa [handling, releasing, hreleased] using hhandled
    rw [← hsame, hok.popped, hall, take_length]

section Runs

def timelyTest (s : Threads (Worker Nat) (PC Nat)) (l : Nat × Act Nat) : Bool :=
  match s.pc l.1 with
  | .push pc => decide (Timely s.shared.queue pc)
  | _ => true

theorem timely_of_test {s l} (h : timelyTest s l = true) : timely s l := by
  intro pc hpc
  simpa only [timelyTest, hpc, decide_eq_true_eq] using h

/-- A task is pushed after the loop has stopped; or it is not stored yet, and the loop takes the
queue for empty. -/
theorem accepted_task_lost :
    (∃ s, Reach next (Initial Nat 0 16) timely s ∧ s.pc 0 = .stopped ∧
      s.shared.accepted = [(1, 7)] ∧ s.shared.handled = [] ∧ s.shared.released = []) ∧
    ∃ s, Reach next (Initial Nat 0 16) timely s ∧ s.pc 0 = .stopped ∧
      s.shared.accepted = [(2, 5)] ∧ s.shared.handled = [] ∧ s.shared.released = [] := by
  constructor
  · exact exists_of_run rfl timelyTest
      [(1, .cast 7), (1, .run), (2, .close), (2, .run),
        (0, .run), (0, .run), (0, .run), (0, .run), (0, .run),
        (1, .run), (1, .run), (1, .run), (1, .run), (1, .run), (1, .run), (1, .run)]
      (fun _ _ _ htest => timely_of_test htest) (by decide +kernel)
  exact exists_of_run rfl timelyTest
    [(1, .cast 7), (1, .run), (1, .run), (1, .run), (1, .run),
      (2, .cast 5), (2, .run), (2, .run), (2, .run), (2, .run), (2, .run), (2, .run),
      (2, .run), (2, .run), (3, .close), (3, .run),
      (0, .run), (0, .run), (0, .run), (0, .run), (0, .run)]
    (fun _ _ _ htest => timely_of_test htest) (by decide +kernel)

def few (s : Threads (Worker Nat) (PC Nat)) (l : Nat × Act Nat) : Prop :=
  orderly s l ∧ l.1 < 3

theorem idle_of_few {s} (h : Reach next (Initial Nat 0 16) few s) (g : Nat) (hg : 3 ≤ g) :
    s.pc g = .idle := by
  refine pc_of_bounded h ?_ (fun _ _ hfew => hfew.2) g hg
  rintro _ rfl g hg
  have hne : g ≠ 0 := by omega
  simp [hne]

def isPush : PC Nat → Bool
  | .push _ => true
  | _ => false

def fewTest (s : Threads (Worker Nat) (PC Nat)) (l : Nat × Act Nat) : Bool :=
  timelyTest s l && decide (l.1 < 3) &&
    match l.2 with
    | .close => (List.range 3).all fun g => !isPush (s.pc g)
    | _ => true

theorem few_of_test {s l} (hreach : Reach next (Initial Nat 0 16) few s) (h : fewTest s l = true) :
    few s l := by
  simp only [fewTest, Bool.and_eq_true, decide_eq_true_eq] at h
  obtain ⟨⟨htimely, hlt⟩, hclose⟩ := h
  refine ⟨⟨timely_of_test htimely, fun ha g pc hpc => ?_⟩, hlt⟩
  rw [ha] at hclose
  rcases lt_or_ge g 3 with hg | hg
  · have hnot := all_eq_true.mp hclose g (mem_range.mpr hg)
    rw [hpc] at hnot
    cases hnot
  · cases (idle_of_few hreach g hg).symm.trans hpc

theorem accepted_tasks_closed :
    ∃ s, Reach next (Initial Nat 0 16) orderly s ∧ s.pc 0 = .stopped ∧
      s.shared.accepted = [(2, 5), (1, 7)] ∧ s.shared.released = [.stored 7, .stored 5] ∧
      Outcome 0 s := by
  obtain ⟨s, hreach, hstopped, haccepted, hreleased⟩ : ∃ s, Reach next (Initial Nat 0 16) few s ∧
      s.pc 0 = .stopped ∧ s.shared.accepted = [(2, 5), (1, 7)] ∧ s.shared.released = [.stored 7,
      .stored 5] :=
    exists_of_run rfl fewTest
      ([(1, .cast 7), (1, .run), (1, .run), (1, .run), (1, .run), (0, .run), (0, .run),
        (2, .cast 5), (2, .run), (2, .run), (2, .run), (2, .run), (2, .run), (2, .run),
        (2, .run), (2, .run), (1, .run), (1, .run), (1, .run), (1, .run), (2, .close),
        (2, .run)] ++ replicate 19 (0, .run))
      (fun _ _ hreach htest => few_of_test hreach htest) (by decide +kernel)
  have horderly := hreach.weaken fun _ _ hfew => hfew.1
  exact ⟨s, horderly, hstopped, haccepted, hreleased, accepted_tasks 0 16 horderly⟩

end Runs

end CubeCore.AcceptedTasks
