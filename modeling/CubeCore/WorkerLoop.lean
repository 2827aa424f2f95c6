import CubeCore.QueueSteps

namespace CubeCore.WorkerLoop

open Interleaving MPSCQueue QueueSteps QueueTickets TransitionSystem

/-- `notify`: the channel is full. Ghost data: `accepted` has the tasks `TryCast` returned true for,
with the goroutine, `handled` and `released` those for which the handler and `OnRelease` ran. -/
structure Worker (T : Type) where
  queue : Queue T
  closed : Bool
  notify : Bool
  accepted : List (Nat × T)
  handled : List (Cell T)
  released : List (Cell T)

/-- `draining` is the second inner loop. `OnRelease` follows a handler that panics as one that
returns. -/
inductive PC (T : Type) where
  | idle
  | check (task : T)
  | push (pc : PushPC T)
  | signal (task : T) (pos : Nat)
  | closing
  | pop (draining : Bool) (pc : PopPC T)
  | handle (draining : Bool) (task : Cell T)
  | release (draining : Bool) (task : Cell T)
  | loadClosed
  | wait
  | stopped
deriving DecidableEq

inductive Act (T : Type) where
  | cast (task : T)
  | close
  | run

variable {T : Type}

/-- After a step of the `Push` of `TryCast`. -/
def PC.casting (pc : PushPC T) : PushPC T ⊕ Bool → PC T
  | .inl pc' => .push pc'
  | .inr false => .idle
  | .inr true => .signal pc.val (pc.place.getD 0)

/-- After a step of a `Pop` of the loop. -/
def PC.looping (draining : Bool) : PopPC T ⊕ Option (Cell T) → PC T
  | .inl pc => .pop draining pc
  | .inr (some task) => .handle draining task
  | .inr none => if draining then .stopped else .loadClosed

def step (g : Nat) (w : Worker T) : PC T → Act T → Option (Worker T × PC T)
  | .idle, .cast task => some (w, .check task)
  | .check task, .run =>
    if w.closed then some (w, .idle) else some (w, .push (.loadHead task))
  | .push pc, .run =>
    some ({ w with queue := (pushStep g w.queue pc).1 },
      PC.casting pc (pushStep g w.queue pc).2)
  | .signal task _, .run =>
    some ({ w with notify := true, accepted := w.accepted ++ [(g, task)] }, .idle)
  | .idle, .close => some ({ w with closed := true }, .closing)
  | .closing, .run => some ({ w with notify := true }, .idle)
  | .pop draining pc, .run =>
    some ({ w with queue := (popStep w.queue pc).1 },
      PC.looping draining (popStep w.queue pc).2)
  | .handle draining task, .run =>
    some ({ w with handled := w.handled ++ [task] }, .release draining task)
  | .release draining task, .run =>
    some ({ w with released := w.released ++ [task] }, .pop draining .loadTail)
  | .loadClosed, .run =>
    if w.closed then some (w, .pop true .loadTail) else some (w, .wait)
  | .wait, .run =>
    if w.notify then some ({ w with notify := false }, .pop false .loadTail) else none
  | _, _ => none

def next : Threads (Worker T) (PC T) → Nat × Act T → Option (Threads (Worker T) (PC T)) :=
  Interleaving.next step

def newWorker (T : Type) (queueCap : BitVec 64) : Worker T where
  queue := newMPSCQueue T queueCap
  closed := false
  notify := false
  accepted := []
  handled := []
  released := []

/-- A new worker whose loop is run by goroutine `worker`. -/
def Initial (T : Type) (worker : Nat) (queueCap : BitVec 64) (s : Threads (Worker T) (PC T)) :
    Prop :=
  s = ⟨newWorker T queueCap, Function.update (fun _ => .idle) worker (.pop false .loadTail)⟩

/-- No `Push` is overtaken by a turn of the counters. -/
def timely (s : Threads (Worker T) (PC T)) (l : Nat × Act T) : Prop :=
  ∀ pc, s.pc l.1 = .push pc → Timely s.shared.queue pc

/-- In addition, no `TryCast` is in its `Push` when `Close` sets `closed`. -/
def orderly (s : Threads (Worker T) (PC T)) (l : Nat × Act T) : Prop :=
  timely s l ∧ (l.2 = .close → ∀ g pc, s.pc g ≠ .push pc)

section Queue

variable {worker g : Nat} {w w' : Worker T} {pc pc' : PC T}

def Knows (worker g : Nat) (w : Worker T) : PC T → Prop
  | .idle | .check _ | .signal _ _ | .closing => g ≠ worker
  | .push pc => g ≠ worker ∧ PushKnows g w.queue pc
  | .pop _ pc => g = worker ∧ PopKnows w.queue pc
  | .handle _ _ | .release _ _ | .loadClosed | .wait | .stopped =>
    g = worker ∧ w.queue.taken = w.queue.popped.length

variable {g' : Nat}

theorem knows_of_queue {v : Worker T} (hqueue : v.queue = w.queue) (h : Knows worker g' w pc) :
    Knows worker g' v pc := by
  cases pc <;> simpa only [Knows, hqueue] using h

theorem knows_of_push (hok : Ok w.queue) (hframe : PushFrame g w.queue w'.queue) (hne : g' ≠ g)
    (h : Knows worker g' w pc) : Knows worker g' w' pc := by
  have hloop : g' = worker ∧ w.queue.taken = w.queue.popped.length →
      g' = worker ∧ w'.queue.taken = w'.queue.popped.length := by
    rw [hframe.taken, hframe.popped]
    exact id
  cases pc with
  | idle | check | signal | closing => exact h
  | push => exact ⟨h.1, pushKnows_of_push hok hframe hne h.2⟩
  | pop => exact ⟨h.1, popKnows_of_push hok hframe h.2⟩
  | handle | release | loadClosed | wait | stopped => exact hloop h

theorem knows_of_pop (hok : Ok w.queue) (hframe : PopFrame w.queue w'.queue) (hne : g' ≠ worker)
    (h : Knows worker g' w pc) : Knows worker g' w' pc := by
  cases pc with
  | idle | check | signal | closing => exact h
  | push => exact ⟨h.1, pushKnows_of_pop hok hframe h.2⟩
  | pop | handle | release | loadClosed | wait | stopped =>
    exact absurd h.1 hne

end Queue

/-- The steps of goroutine `g` by what they do to the tasks. -/
inductive Effect (g : Nat) (w : Worker T) : PC T → Worker T → PC T → Prop
  | cast (task : T) : Effect g w .idle w (.check task)
  | refused (task : T) : Effect g w (.check task) w .idle
  | passed (task : T) : w.closed = false → Effect g w (.check task) w (.push (.loadHead task))
  | look : pc.place = none → pc'.place = none → Effect g w (.push pc) w (.push pc')
  | full : pc.place = none → Effect g w (.push pc) w .idle
  | win : pc.place = none → pc'.place = some w.queue.pushed.length → pc'.val = pc.val →
      q'.pushed = w.queue.pushed ++ [(g, pc.val)] → q'.ready = w.queue.ready →
      q'.popped = w.queue.popped →
      Effect g w (.push pc) { w with queue := q' } (.push pc')
  | write : pc.place = some pos →
      pc'.place = some pos → pc'.val = pc.val → q'.pushed = w.queue.pushed →
      q'.ready = w.queue.ready → q'.popped = w.queue.popped →
      Effect g w (.push pc) { w with queue := q' } (.push pc')
  | publish : pc.place = some pos → w.queue.ready pos = false → q'.pushed = w.queue.pushed →
      q'.ready = Function.update w.queue.ready pos true → q'.popped = w.queue.popped →
      Effect g w (.push pc) { w with queue := q' } (.signal pc.val pos)
  | signal (task : T) (pos : Nat) :
      Effect g w (.signal task pos)
        { w with notify := true, accepted := w.accepted ++ [(g, task)] } .idle
  | close : Effect g w .idle { w with closed := true } .closing
  | wake : Effect g w .closing { w with notify := true } .idle
  | pop : q'.pushed = w.queue.pushed → q'.ready = w.queue.ready → q'.popped = w.queue.popped →
      Effect g w (.pop draining pc) { w with queue := q' } (.pop draining pc')
  | popped : q'.pushed = w.queue.pushed → q'.ready = w.queue.ready →
      q'.popped = w.queue.popped ++ [task] →
      Effect g w (.pop draining pc) { w with queue := q' } (.handle draining task)
  | empty : w.queue.ready w.queue.popped.length = false → Effect g w (.pop false pc) w .loadClosed
  | stop : w.queue.ready w.queue.popped.length = false → Effect g w (.pop true pc) w .stopped
  | handle (draining : Bool) (task : Cell T) :
      Effect g w (.handle draining task) { w with handled := w.handled ++ [task] }
        (.release draining task)
  | release (draining : Bool) (task : Cell T) :
      Effect g w (.release draining task) { w with released := w.released ++ [task] }
        (.pop draining .loadTail)
  | drain : w.closed = true → Effect g w .loadClosed w (.pop true .loadTail)
  | block : w.closed = false → Effect g w .loadClosed w .wait
  | woken : w.notify = true →
      Effect g w .wait { w with notify := false } (.pop false .loadTail)

section Steps

variable {worker g : Nat} {w w' : Worker T} {pc pc' : PC T} {a : Act T}

def QueueOk (w : Worker T) : Prop := Ok w.queue

theorem keeps_step (hok : QueueOk w) (hknows : Knows worker g w pc)
    (htimely : ∀ push, pc = .push push → Timely w.queue push)
    (hstep : step g w pc a = some (w', pc')) :
    Keeps QueueOk (Knows worker) g w w' pc' ∧ Effect g w pc w' pc' := by
  have hsame : ∀ {v : Worker T}, v.queue = w.queue → Knows worker g v pc' →
      Keeps QueueOk (Knows worker) g w v pc' := by
    intro v hqueue hown
    refine ⟨?_, hown, fun _ _ _ h => knows_of_queue hqueue h⟩
    show Ok v.queue
    rwa [hqueue]
  unfold step at hstep
  split at hstep
  · cases hstep
    exact ⟨hsame rfl hknows, .cast _⟩
  · split_ifs at hstep with hclosed
    · cases hstep
      exact ⟨hsame rfl hknows, .refused _⟩
    · cases hstep
      exact ⟨hsame rfl ⟨hknows, trivial⟩, .passed _ (Bool.eq_false_iff.mpr hclosed)⟩
  · rename_i push
    obtain ⟨hne, hknows⟩ := hknows
    rcases hr : pushStep g w.queue push with ⟨q', r⟩
    rw [hr] at hstep
    cases hstep
    obtain ⟨hmove, hok', hframe, hresult⟩ := keeps_push hok hknows (htimely push rfl) hr
    constructor
    · refine ⟨hok', ?_, fun g' pc' hne h => knows_of_push hok hframe hne h⟩
      rcases r with pc | _ | _
      · exact ⟨hne, hresult⟩
      · exact hne
      · exact hne
    cases hmove with
    | look hplace hplace' _ hqueue =>
      subst hqueue
      exact .look hplace hplace'
    | full hplace hqueue =>
      subst hqueue
      exact .full hplace
    | win hplace hplace' hval hpushed hready =>
      exact .win hplace hplace' hval hpushed hready hframe.popped
    | write hplace hplace' hval hpushed hready =>
      exact .write hplace hplace' hval hpushed hready hframe.popped
    | publish hplace hpushed hready =>
      simp only [PC.casting, hplace, Option.getD_some]
      exact .publish hplace (owns_of_place hknows hplace).ready hpushed hready hframe.popped
  · cases hstep
    exact ⟨hsame rfl hknows, .signal _ _⟩
  · cases hstep
    exact ⟨hsame rfl hknows, .close⟩
  · cases hstep
    exact ⟨hsame rfl hknows, .wake⟩
  · rename_i draining pop
    obtain ⟨rfl, hknows⟩ := hknows
    rcases hr : popStep w.queue pop with ⟨q', r⟩
    rw [hr] at hstep
    cases hstep
    obtain ⟨hok', hframe, hresult⟩ := keeps_pop hok hknows hr
    rcases r with pc | _ | task
    · exact ⟨⟨hok', ⟨rfl, hresult.1⟩, fun g' pc' hne h => knows_of_pop hok hframe hne h⟩,
        .pop hframe.pushed hframe.ready hresult.2⟩
    · obtain ⟨htaken, rfl, hready⟩ := hresult
      cases draining with
      | false => exact ⟨hsame rfl ⟨rfl, htaken⟩, .empty hready⟩
      | true => exact ⟨hsame rfl ⟨rfl, htaken⟩, .stop hready⟩
    · exact ⟨⟨hok', ⟨rfl, hresult.1⟩, fun g' pc' hne h => knows_of_pop hok hframe hne h⟩,
        .popped hframe.pushed hframe.ready hresult.2.1⟩
  · cases hstep
    exact ⟨hsame rfl hknows, .handle _ _⟩
  · cases hstep
    exact ⟨hsame rfl hknows, .release _ _⟩
  · split_ifs at hstep with hclosed
    · cases hstep
      exact ⟨hsame rfl hknows, .drain hclosed⟩
    · cases hstep
      exact ⟨hsame rfl hknows, .block (Bool.eq_false_iff.mpr hclosed)⟩
  · split_ifs at hstep with hnotify
    cases hstep
    exact ⟨hsame rfl hknows, .woken hnotify⟩
  · cases hstep

end Steps

end CubeCore.WorkerLoop
