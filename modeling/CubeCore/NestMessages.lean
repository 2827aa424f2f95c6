import CubeCore.EntityGroup
import CubeCore.TransitionSystem
import Mathlib.Data.List.Perm.Basic

namespace CubeCore.NestMessages

open EntityGroup List Function

inductive Pool where
  | main
  | hb
  | cost
deriving DecidableEq

structure Worker where
  pool : Pool
  index : Nat
deriving DecidableEq

inductive CallType where
  | single
  | multi
  | multiGroup
  | broadcast
deriving DecidableEq

/-- `cost` stands for `Cost || HasRemote`; channels are numbered as they are made. -/
structure Call where
  type : CallType
  key : Int
  cost : Bool
  retChan : Option Nat
  pendingRequeues : Nat
deriving DecidableEq

structure GroupTransitionContinuation where
  handler : String
  retChan : Option Nat
deriving DecidableEq

/-- A `GroupTransitionRequest` with all its fields but the deadline. -/
structure Transition where
  req : GroupTransitionRequest
  attempts : Nat
  continuation : Option GroupTransitionContinuation
deriving DecidableEq

/-- A message of type `MsgTypeGroupTransition` never has a reply channel. -/
inductive Msg where
  | call (c : Call)
  | transition (t : Transition)
deriving DecidableEq

def Msg.retChan : Msg → Option Nat
  | .call c => c.retChan
  | .transition _ => none

def Msg.key : Msg → Int
  | .call c => c.key
  | .transition t => t.req.entityID

/-- `remote` needs a remote preparation; a `maxDelay` or `delayedMsgCap` of zero is no limit. -/
structure Config where
  hash : Int → Nat
  workerNum : Pool → Nat
  queueCap : Nat
  delayedMsgCap : Nat
  maxDelay : Nat
  remote : Int → Bool

def Config.pool (cfg : Config) : Msg → Pool
  | .call c =>
    if c.cost then .cost
    else if c.type = .broadcast ∧ 0 < cfg.workerNum .hb then .hb
    else .main
  | .transition _ => .main

/-- `pickWorker`: messages with one key go to one worker of their pool. -/
def Config.worker (cfg : Config) (m : Msg) : Worker :=
  ⟨cfg.pool m, cfg.hash m.key % cfg.workerNum (cfg.pool m)⟩

def entityGroupDispatchRequeueMax : Nat := 400
def entityGroupTransitionRetryMax : Nat := 400
def entityGroupDispatchRequeueDelay : Nat := 5
def entityGroupTransitionRetryDelay : Nat := 5

/-- `TrySendMsg`: the flags under the mutex, the pool and the worker, the worker's `closed`, the
push. -/
inductive SendStage where
  | flags
  | pick
  | closed
  | push
deriving DecidableEq

/-- A client is told of a rejection itself; `sendMsg` in the delay loop or a dispatch is not. -/
inductive Origin where
  | client
  | delayLoop
  | dispatch
deriving DecidableEq

/-- `aborting` is the lookup of `abortGroupTransition`; `done` says whether the transition was
carried out. -/
inductive DispatchStage where
  | start
  | locking (obj : Nat)
  | comparing (obj : Nat) (abort : Bool)
  | comparingTarget (obj : Nat) (abort : Bool)
  | updating (obj : Nat)
  | clearing (obj : Nat) (done : Bool)
  | clearingState (obj : Nat) (done : Bool)
  | retrying
  | aborting
deriving DecidableEq

/-- The steps of `requestEntityLockGroupTransition` after its lookup. -/
inductive RequestStage where
  | looked
  | begun
  | stored
  | clearing
  | clearingState
deriving DecidableEq

inductive Item where
  | sending (m : Msg) (stage : SendStage) (origin : Origin)
  | queued (w : Worker) (m : Msg)
  | delayed (m : Msg)
  | handling (w : Worker) (c : Call)
  | transiting (w : Worker) (t : Transition) (stage : DispatchStage)
  | requesting (caller : Option Worker) (t : Transition) (obj : Nat) (stage : RequestStage)
deriving DecidableEq

/-- Objects may be dropped and loaded again under an id; `accepted` are the channels of accepted
messages, `replies` those that got a value. -/
structure Nest where
  fenced : Bool
  stopped : Bool
  poolStopped : Pool → Bool
  closed : Worker → Bool
  exited : Worker → Bool
  items : List Item
  base : Nat → GroupBase
  managed : Int → Option Nat
  objects : Nat
  channels : Nat
  accepted : List Nat
  replies : List Nat

def initial : Nest where
  fenced := false
  stopped := false
  poolStopped _ := false
  closed _ := false
  exited _ := false
  items := []
  base _ := .zero
  managed _ := none
  objects := 0
  channels := 0
  accepted := []
  replies := []

/-- What a handler returns (`escaped` is a panic of the deferred part), what the getter answers,
whether a lock is busy or a deadline has passed. -/
inductive Choice where
  | ok
  | failed
  | missing
  | busy
  | late
  | transient
  | pending
  | escaped

structure Effect where
  items : List Item
  replies : List Nat
  accepted : List Nat
  base : Nat → GroupBase

section Steps

variable (cfg : Config) (s : Nest) (w : Worker)

def Item.queuedOn : Item → Bool
  | .queued w' _ => w' = w
  | _ => false

def Item.isDelayed : Item → Bool
  | .delayed _ => true
  | _ => false

def Item.runsOn : Item → Bool
  | .handling w' _ | .transiting w' _ _ => w' = w
  | _ => false

/-- A send to `w` that has passed the check of `closed`. -/
def Item.pushesTo : Item → Bool
  | .sending m .push _ => cfg.worker m = w
  | _ => false

def Item.isDelayLoop : Item → Bool
  | .sending _ _ .delayLoop => true
  | _ => false

def Item.requestedBy : Item → Bool
  | .requesting (some w') _ _ _ => w' = w
  | _ => false

def become (items : List Item) : Effect := ⟨items, [], [], s.base⟩

def reply (channel : Option Nat) : Effect := ⟨[], channel.toList, [], s.base⟩

def reject (m : Msg) : Origin → Effect
  | .client => become s []
  | _ => reply s m.retChan

/-- What the next step of `TrySendMsg` asks for. -/
def sendable (m : Msg) : SendStage → Bool
  | .flags => !s.fenced && !s.stopped
  | .pick => !s.poolStopped (cfg.pool m)
  | .closed => !s.closed (cfg.worker m)
  | .push => s.items.countP (Item.queuedOn (cfg.worker m)) < cfg.queueCap

def sendStep (m : Msg) (stage : SendStage) (origin : Origin) : Effect :=
  if sendable cfg s m stage then
    match stage with
    | .flags => become s [.sending m .pick origin]
    | .pick => become s [.sending m .closed origin]
    | .closed => become s [.sending m .push origin]
    | .push =>
      { become s [.queued (cfg.worker m) m] with
        accepted := if origin = .client then m.retChan.toList else [] }
  else reject s m origin

/-- `TryDelaySendMsg` with a positive delay accepts the message. -/
def admitsDelay (delay : Nat) : Bool :=
  !s.fenced && !s.stopped && (cfg.maxDelay = 0 || delay ≤ cfg.maxDelay) &&
    (cfg.delayedMsgCap = 0 || s.items.countP Item.isDelayed < cfg.delayedMsgCap)

def delaySend (delay : Nat) (m : Msg) : Effect :=
  if admitsDelay cfg s delay then become s [.delayed m] else reply s m.retChan

/-- The deferred part of `NestDispatch` for a message that calls a handler. -/
def finish (c : Call) : Choice → Option Effect
  | .ok | .failed => some (reply s c.retChan)
  | .transient | .pending =>
    if c.pendingRequeues < entityGroupDispatchRequeueMax then
      some (delaySend cfg s entityGroupDispatchRequeueDelay
        (.call { c with pendingRequeues := c.pendingRequeues + 1 }))
    else some (reply s c.retChan)
  | .escaped => some (become s [])
  | _ => none

/-- `completeGroupTransitionContinuation` with an error. -/
def complete (t : Transition) : Effect := reply s (t.continuation.bind (·.retChan))

def dispatchGroupTransitionContinuation (t : Transition) : Effect :=
  match t.continuation with
  | none => become s []
  | some cont =>
    if cont.handler = "" ∨ cont.retChan = none then become s []
    else become s [.sending (.call
      { type := .single
        key := t.req.entityID
        cost := cfg.remote t.req.entityID
        retChan := cont.retChan
        pendingRequeues := 0 }) .flags .dispatch]

/-- The same effect with a write to the fields of an object. -/
def Effect.write (e : Effect) (obj : Nat) (f : GroupBase → GroupBase) : Effect :=
  { e with base := update e.base obj (f (e.base obj)) }

def transitStep (t : Transition) : DispatchStage → Choice → Option Effect
  | .start, .failed => some (become s [])
  | .start, .missing => if s.fenced then none else some (complete s t)
  | .start, .ok =>
    if s.fenced then none
    else (s.managed t.req.entityID).map fun obj => become s [.transiting w t (.locking obj)]
  | .locking _, .busy => some (become s [.transiting w t .retrying])
  | .locking obj, .ok => some (become s [.transiting w t (.comparing obj false)])
  | .comparing obj abort, .ok =>
    some (if (s.base obj).groupState = t.req.state then
        become s [.transiting w t (.comparingTarget obj abort)]
      else complete s t)
  | .comparingTarget obj abort, .ok =>
    some (if (s.base obj).groupTargetID = t.req.targetGroupID then
        become s [.transiting w t (if abort then .clearing obj false else .updating obj)]
      else complete s t)
  | .updating obj, .ok =>
    some ((become s [.transiting w t (.clearing obj true)]).write obj fun b =>
      b.setGroupLockID t.req.newGroupID)
  | .updating obj, .failed => some (become s [.transiting w t (.clearing obj false)])
  | .clearing obj done, .ok =>
    some ((become s [.transiting w t (.clearingState obj done)]).write obj fun b =>
      { b with groupTargetID := 0 })
  | .clearingState obj done, .ok =>
    some ((if done then dispatchGroupTransitionContinuation cfg s t else complete s t).write obj
      fun b => { b with groupState := .none })
  | .retrying, .late =>
    some (become s [.transiting w { t with attempts := t.attempts + 1 } .aborting])
  | .retrying, .ok =>
    if entityGroupTransitionRetryMax ≤ t.attempts + 1 then
      some (become s [.transiting w { t with attempts := t.attempts + 1 } .aborting])
    else
      some (delaySend cfg s entityGroupTransitionRetryDelay
        (.transition { t with attempts := t.attempts + 1 }))
  | .aborting, .missing => some (complete s t)
  | .aborting, .ok =>
    (s.managed t.req.entityID).map fun obj => become s [.transiting w t (.comparing obj true)]
  | _, _ => none

variable (caller : Option Worker)

/-- A requester whose message has a reply channel to hand over. -/
def bindable : Bool :=
  s.items.any fun it =>
    match it with
    | .handling w c => caller = some w && c.retChan.isSome
    | _ => false

/-- A pending transition or a continuation that cannot be bound ends the request. -/
def requestStep (t : Transition) (obj : Nat) :
    RequestStage → Option Effect
  | .looked =>
    some (if (s.base obj).groupState = .none then
        (become s [.requesting caller t obj .begun]).write obj fun b =>
          { b with groupState := t.req.state }
      else become s [])
  | .begun =>
    some ((become s [.requesting caller t obj .stored]).write obj fun b =>
      { b with groupTargetID := t.req.targetGroupID })
  | .stored =>
    match t.continuation with
    | none => some (become s [.sending (.transition t) .flags .dispatch])
    | some _ =>
      if bindable s caller then none else some (become s [.requesting caller t obj .clearing])
  | .clearing =>
    some ((become s [.requesting caller t obj .clearingState]).write obj fun b =>
      { b with groupTargetID := 0 })
  | .clearingState =>
    some ((become s []).write obj fun b => { b with groupState := .none })

/-- The next step of an item that goes on by itself. -/
def itemStep : Item → Choice → Option Effect
  | .sending m stage origin, .ok => some (sendStep cfg s m stage origin)
  | .handling w c, choice =>
    if s.items.any (Item.requestedBy w) then none else finish cfg s c choice
  | .transiting w t stage, choice => transitStep cfg s w t stage choice
  | .requesting caller t obj stage, .ok => requestStep s caller t obj stage
  | _, _ => none

def Nest.apply (i : Nat) (e : Effect) : Nest :=
  { s with
    items := s.items.eraseIdx i ++ e.items
    replies := s.replies ++ e.replies
    accepted := s.accepted ++ e.accepted
    base := e.base }

/-- A client call: with a delay it goes to the delay queue at once. -/
def clientCall (c : Call) (delay : Nat) : Option Nest :=
  if c.pendingRequeues ≠ 0 ∨ (c.type = .broadcast ∧ c.retChan ≠ none) ∨
      (c.retChan ≠ none ∧ c.retChan ≠ some s.channels) then none
  else
    let s' := { s with channels := s.channels + c.retChan.toList.length }
    if delay = 0 then some { s' with items := s.items ++ [.sending (.call c) .flags .client] }
    else if admitsDelay cfg s delay then
      some { s' with
        items := s.items ++ [.delayed (.call c)]
        accepted := s.accepted ++ c.retChan.toList }
    else some s'

/-- The lookup of a transition request; a handler may request transitions, one
after the other. -/
def request (req : GroupTransitionRequest) (handler : Option String) : Option Nest :=
  match s.managed req.entityID with
  | none => none
  | some obj =>
    if req.valid ∧ caller.all fun w =>
        s.items.any (fun it => match it with | .handling w' _ => w' = w | _ => false) ∧
          !s.items.any (Item.requestedBy w) then
      some { s with
        items := s.items ++ [.requesting caller ⟨req, 0, handler.map fun name => ⟨name, none⟩⟩
          obj .looked] }
    else none

/-- The continuation takes the reply channel of the message that is being handled. -/
def bind (i j : Nat) : Option Nest :=
  match s.items[i]?, s.items[j]? with
  | some (.requesting (some w) t _ .stored), some (.handling w' c) =>
    match t.continuation, c.retChan with
    | some cont, some channel =>
      if w' = w then
        some { s with
          items := ((s.items.set j (.handling w { c with retChan := none })).eraseIdx i) ++
            [.sending (.transition
              { t with continuation := some { cont with retChan := some channel } })
              .flags .dispatch] }
      else none
    | _, _ => none
  | _, _ => none

def taken : Msg → Item
  | .call c => .handling w c
  | .transition t => .transiting w t .start

def pop (i : Nat) : Option Nest :=
  match s.items[i]? with
  | some (.queued w m) =>
    if s.exited w ∨ s.items.any (Item.runsOn w) ∨ (s.items.take i).any (Item.queuedOn w) then none
    else
      some (s.apply i (become s [taken w m]))
  | _ => none

/-- The delay loop takes a message that is due and sends it. -/
def due (i : Nat) : Option Nest :=
  match s.items[i]? with
  | some (.delayed m) =>
    if s.stopped ∨ s.items.any Item.isDelayLoop then none
    else some (s.apply i (become s [.sending m .flags .delayLoop]))
  | _ => none

/-- A push that has not finished hides what was pushed after it. -/
def exit : Option Nest :=
  if s.closed w ∧ !s.exited w ∧ !s.items.any (Item.runsOn w) ∧
      (!s.items.any (Item.queuedOn w) ∨ s.items.any (Item.pushesTo cfg w)) then
    some { s with exited := update s.exited w true }
  else none

inductive Label where
  | client (c : Call) (delay : Nat)
  | step (i : Nat) (choice : Choice)
  | request (caller : Option Worker) (req : GroupTransitionRequest) (handler : Option String)
  | bind (i j : Nat)
  | pop (i : Nat)
  | due (i : Nat)
  | fence
  | stop
  | stopPool (pool : Pool)
  | close (w : Worker)
  | exit (w : Worker)
  | load (id : Int)
  | remove (id : Int)

def next (cfg : Config) (s : Nest) : Label → Option Nest
  | .client c delay => clientCall cfg s c delay
  | .step i choice =>
    s.items[i]?.bind fun it => (itemStep cfg s it choice).map fun e => s.apply i e
  | .request caller req handler => request s caller req handler
  | .bind i j => bind s i j
  | .pop i => pop s i
  | .due i => due s i
  | .fence => some { s with fenced := true }
  -- delayed messages are recycled, whether somebody waits for them or not
  | .stop => some { s with
      stopped := true
      items := s.items.filter fun it => !it.isDelayed }
  | .stopPool pool =>
    if s.stopped ∧ !s.items.any Item.isDelayLoop then
      some { s with poolStopped := update s.poolStopped pool true }
    else none
  | .close w =>
    if s.poolStopped w.pool then some { s with closed := update s.closed w true }
    else none
  | .exit w => exit cfg s w
  | .load id =>
    match s.managed id with
    | some _ => none
    | none => some { s with
        managed := update s.managed id (some s.objects)
        base := update s.base s.objects .zero
        objects := s.objects + 1 }
  | .remove id => some { s with managed := update s.managed id none }

end Steps

inductive Step (cfg : Config) (s : Nest) : Label → Nest → Prop where
  | rejected :
      Step cfg s (.client c delay) { s with channels := s.channels + c.retChan.toList.length }
  | sent (hchan : ∀ channel ∈ c.retChan, channel = s.channels) :
      Step cfg s (.client c delay) { s with
        channels := s.channels + c.retChan.toList.length
        items := s.items ++ [.sending (.call c) .flags .client] }
  | delayed (hchan : ∀ channel ∈ c.retChan, channel = s.channels) :
      Step cfg s (.client c delay) { s with
        channels := s.channels + c.retChan.toList.length
        items := s.items ++ [.delayed (.call c)]
        accepted := s.accepted ++ c.retChan.toList }
  | item (hit : s.items[i]? = some it)
      (he : itemStep cfg s it choice = some e) : Step cfg s (.step i choice) (s.apply i e)
  | request (hobj : s.managed req.entityID = some obj) (hvalid : req.valid) :
      Step cfg s (.request caller req handler) { s with
        items := s.items ++ [.requesting caller ⟨req, 0, handler.map fun name => ⟨name, none⟩⟩
          obj .looked] }
  | bind (hreq : s.items[i]? = some (.requesting (some w) t obj .stored))
      (hcall : s.items[j]? = some (.handling w c)) (hcont : t.continuation = some cont)
      (hchan : c.retChan = some channel) :
      Step cfg s (.bind i j) { s with
        items := ((s.items.set j (.handling w { c with retChan := none })).eraseIdx i) ++
          [.sending (.transition
            { t with continuation := some { cont with retChan := some channel } })
            .flags .dispatch] }
  | pop (hit : s.items[i]? = some (.queued w m)) :
      Step cfg s (.pop i) (s.apply i (become s [taken w m]))
  | due (hit : s.items[i]? = some (.delayed m)) :
      Step cfg s (.due i) (s.apply i (become s [.sending m .flags .delayLoop]))
  | fence : Step cfg s .fence { s with fenced := true }
  | stop : Step cfg s .stop { s with
      stopped := true
      items := s.items.filter fun it => !it.isDelayed }
  | stopPool :
      Step cfg s (.stopPool pool) { s with
        poolStopped := update s.poolStopped pool true }
  | close : Step cfg s (.close w) { s with closed := update s.closed w true }
  | exit (hclosed : s.closed w = true)
      (hempty : s.items.any (Item.queuedOn w) = false ∨ s.items.any (Item.pushesTo cfg w) = true) :
      Step cfg s (.exit w) { s with exited := update s.exited w true }
  | load {id : Int} (hnone : s.managed id = none) :
      Step cfg s (.load id) { s with
        managed := update s.managed id (some s.objects)
        base := update s.base s.objects .zero
        objects := s.objects + 1 }
  | remove {id : Int} :
      Step cfg s (.remove id) { s with managed := update s.managed id none }

theorem step_of_next {cfg : Config} {s s' : Nest} (h : next cfg s l = some s') :
    Step cfg s l s' := by
  cases l with
  | client c =>
    simp only [next, clientCall] at h
    split at h
    · cases h
    rename_i hvalid
    have hchan : ∀ channel ∈ c.retChan, channel = s.channels := by
      intro channel hmem
      rw [Option.mem_def] at hmem
      by_contra hne
      exact hvalid (.inr (.inr (by simp [hmem, hne])))
    split at h
    · cases h
      exact .sent hchan
    split at h
    · cases h
      exact .delayed hchan
    · cases h
      exact .rejected
  | step =>
    obtain ⟨it, hit, hstep⟩ := Option.bind_eq_some_iff.mp h
    obtain ⟨e, he, rfl⟩ := Option.map_eq_some_iff.mp hstep
    exact .item hit he
  | request =>
    simp only [next, request] at h
    split at h
    · cases h
    rename_i obj hobj
    split_ifs at h with hvalid
    cases h
    exact .request hobj hvalid.1
  | bind =>
    simp only [next, NestMessages.bind] at h
    split at h
    · rename_i w t obj w' c hreq hcall
      split at h
      · rename_i cont channel hcont hchan
        split_ifs at h with hw
        subst hw
        cases h
        exact .bind hreq hcall hcont hchan
      · cases h
    · cases h
  | pop =>
    simp only [next, pop] at h
    split at h
    · rename_i w m hit
      split_ifs at h
      cases h
      exact .pop hit
    · cases h
  | due =>
    simp only [next, due] at h
    split at h
    · rename_i m hit
      split_ifs at h
      cases h
      exact .due hit
    · cases h
  | fence =>
    cases h
    exact .fence
  | stop =>
    cases h
    exact .stop
  | stopPool =>
    simp only [next] at h
    split_ifs at h
    cases h
    exact .stopPool
  | close =>
    simp only [next] at h
    split_ifs at h
    cases h
    exact .close
  | exit =>
    simp only [next, exit] at h
    split_ifs at h with hexit
    cases h
    refine .exit hexit.1 ?_
    simpa using hexit.2.2.2
  | load =>
    simp only [next] at h
    split at h
    · cases h
    · rename_i hnone
      cases h
      exact .load hnone
  | remove =>
    cases h
    exact .remove

section Rewriting

variable {s : Nest} {it : Item} {i : Nat}

theorem items_perm (h : s.items[i]? = some it) : s.items.Perm (it :: s.items.eraseIdx i) := by
  obtain ⟨hlt, rfl⟩ := List.getElem?_eq_some_iff.mp h
  exact (getElem_cons_eraseIdx_perm hlt).symm

theorem bind_perm {caller} {w : Worker} (hit : s.items[i]? = some (.requesting caller t obj stage))
    (hit' : s.items[j]? = some (.handling w c)) (c' : Call) (sent : Item) :
    ∃ rest, s.items.Perm (.requesting caller t obj stage :: .handling w c :: rest) ∧
      ((s.items.set j (.handling w c')).eraseIdx i ++ [sent]).Perm
        (sent :: .handling w c' :: rest) := by
  have hij : j ≠ i := by
    rintro rfl
    rw [hit] at hit'
    cases hit'
  -- the request is not at the place that is set, so it is among the others
  generalize hreq : Item.requesting caller t obj stage = it at *
  generalize hcall : Item.handling w c' = handled at *
  have hne' : it ≠ handled := by
    rintro rfl
    rw [← hcall] at hreq
    cases hreq
  have hset := set_perm_cons_eraseIdx (List.getElem?_eq_some_iff.mp hit').1 handled
  have hit'' : (s.items.set j handled)[i]? = some it := by
    rw [List.getElem?_set_ne hij, hit]
  obtain ⟨hlt, heq⟩ := List.getElem?_eq_some_iff.mp hit''
  have herase := getElem_cons_eraseIdx_perm hlt
  rw [heq] at herase
  have hmem : it ∈ s.items.eraseIdx j := by
    have hmem : it ∈ handled :: s.items.eraseIdx j := (herase.trans hset).subset (.head _)
    exact (mem_cons.mp hmem).resolve_left hne'
  have hrest := perm_cons_erase hmem
  refine ⟨(s.items.eraseIdx j).erase it, ?_, ?_⟩
  · exact ((items_perm hit').trans (hrest.cons _)).trans (List.Perm.swap _ _ _)
  have hleft : (it :: (s.items.set j handled).eraseIdx i).Perm
      (it :: handled :: (s.items.eraseIdx j).erase it) :=
    (herase.trans hset).trans ((hrest.cons handled).trans (List.Perm.swap _ _ _))
  exact perm_append_comm.trans (hleft.cons_inv.cons sent)

end Rewriting

end CubeCore.NestMessages
