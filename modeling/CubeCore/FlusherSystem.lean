import CubeCore.BatchDedup
import CubeCore.TransitionSystem
import CubeCore.VersionStore

namespace CubeCore.FlusherSystem

open SaveItems JournalQueue BatchDedup VersionStore List

variable {V : Type}

abbrev Doc (V : Type) := String → Option V

abbrev Backend (V : Type) := Store Target (Doc V)

structure Config (V : Type) where
  journalCap : Nat
  flushWorkers : Nat
  batchSize : Nat
  batchBytes : Nat
  hasWal : Bool
  decode : Bytes → Doc V

inductive SaveResult where
  | ok
  | versionConflict
  | failed
deriving DecidableEq, Repr

def applyPatch (p : PersistPatch V) (doc : Doc V) : Doc V := fun field =>
  match p.set.lookup field with
  | some value => some value
  | none => if field ∈ p.unset then none else doc field

/-- A full write replaces the document, a patch updates its own fields. -/
def writeDoc (decode : Bytes → Doc V) (op : SaveOp V) (old : Option (Doc V)) : Doc V :=
  match op.mode with
  | .full => decode op.data
  | .patch => applyPatch op.patch (old.getD fun _ => none)

def saveOne (decode : Bytes → Doc V) (b : Backend V) (op : SaveOp V) : Backend V :=
  save b op.target op.version (writeDoc decode op)

/-- `fails` marks the items the backend rejects; the version test decides on the others. -/
def bulkSave (decode : Bytes → Doc V) :
    Backend V → List (SaveOp V) → List Bool → Backend V × List SaveResult
  | b, [], _ => (b, [])
  | b, op :: ops, fails =>
    if fails.headD false then
      let rest := bulkSave decode b ops fails.tail
      (rest.1, .failed :: rest.2)
    else
      let rest := bulkSave decode (saveOne decode b op) ops fails.tail
      (rest.1,
        (if accepts (b op.target) op.version then .ok else .versionConflict) :: rest.2)

inductive Pid where
  | worker (i : Nat)
  | flush (i : Nat)
  | stop
deriving DecidableEq, Repr

/-- `saving` to `requeue` are the stages of `processBatch`, the last four belong to
`Checkpoint.Stop`. -/
inductive PC (V : Type) where
  | idle
  | loop
  | check
  | wait
  | saving (batch : Batch V) (todo : List (SaveItem V))
  | ackSaves (batch : Batch V) (todo : List (SaveItem V)) (failed : Bool)
      (acks : List (SaveItem V))
  | removing (batch : Batch V) (todo : List (RemoveKey × List RemoveId))
  | ackRemoves (batch : Batch V) (group : RemoveKey × List RemoveId)
      (todo : List (RemoveKey × List RemoveId))
  | requeue (entries : List (JournalEntry V))
  | finish (failed : Bool)
  | notify (failed : Bool)
  | returned (failed : Bool)
  | exited
  | closeJournal
  | joinWorkers
  | rollbackPending
  | stopWal
deriving DecidableEq

inductive SaveOutcome where
  | error (cancelled : Bool)
  | mismatch (fails : List Bool)
  | results (fails : List Bool)
deriving DecidableEq

inductive CallOutcome where
  | ok
  | error (cancelled : Bool)
deriving DecidableEq

inductive Label (V : Type) where
  | start
  | push (items : List (SaveItem V))
  | flush (i : Nat)
  | stop
  | take (p : Pid)
  | check (p : Pid)
  | receive (p : Pid)
  | cancel (p : Pid)
  | save (p : Pid) (outcome : SaveOutcome)
  | ack (p : Pid) (outcome : CallOutcome)
  | remove (p : Pid) (i : Nat) (outcome : CallOutcome)
  | requeue (p : Pid) (order : List (JournalEntry V))
  | finish (p : Pid)
  | notify (p : Pid)
  | exit (i : Nat)
  | close
  | join (ok : Bool)
  | rollbackPending
  | stopWal (ok : Bool)

/-- Ghost data from `admitted` on: the items admitted, the results of the backend calls, the removes
executed, how many were admitted when each `FlushAll` began, and the `Stop` calls that found nothing
running. -/
structure State (V : Type) where
  journal : Journal V
  inFlight : Nat
  progress : Bool
  procs : Pid → PC V
  backend : Backend V
  dirty : Nat → UInt64
  started : Bool
  running : Bool
  stopped : Bool
  admitted : List (SaveItem V)
  writes : List (SaveItem V × SaveResult)
  removed : List (Target × List Nat)
  since : Nat → Nat
  idleStops : Nat

def initial (cfg : Config V) (backend : Backend V) : State V where
  journal := .new cfg.journalCap
  inFlight := 0
  progress := false
  procs := fun _ => .idle
  backend := backend
  dirty := fun _ => 0
  started := false
  running := false
  stopped := false
  admitted := []
  writes := []
  removed := []
  since := fun _ => 0
  idleStops := 0

def State.setPc (s : State V) (p : Pid) (pc : PC V) : State V :=
  { s with procs := Function.update s.procs p pc }

def stampItems : Nat → List (SaveItem V) → List (SaveItem V)
  | _, [] => []
  | n, item :: items => item.stamp n :: stampItems (n + 1) items

def chunkLoop (cfg : Config V) : List (SaveItem V) → Nat → Nat → Nat
  | [], count, _ => count
  | item :: items, count, bytes =>
    if count < cfg.batchSize ∧ bytes < cfg.batchBytes then
      chunkLoop cfg items (count + 1) (bytes + item.sizeHint)
    else count

/-- The number of items `flushSaves` passes to its next `BulkSave`. -/
def chunkLength (cfg : Config V) (items : List (SaveItem V)) : Nat :=
  max 1 (chunkLoop cfg items 0 0)

/-- One `BulkSave` of `flushSaveBatch`: the new backend and each item with its
result. -/
def flushChunk (cfg : Config V) (b : Backend V) (chunk : List (SaveItem V))
    (fails : List Bool) : Backend V × List (SaveItem V × SaveResult) :=
  let reply := bulkSave cfg.decode b (chunk.map SaveItem.toOp) fails
  (reply.1, chunk.zip reply.2)

def rejected (outcomes : List (SaveItem V × SaveResult)) : List (SaveItem V) :=
  (outcomes.filter fun o => o.2 = .failed).map Prod.fst

def acked (outcomes : List (SaveItem V × SaveResult)) : List (SaveItem V) :=
  (outcomes.filter fun o => o.2 ≠ .failed).map Prod.fst

variable (decode : Bytes → Doc V) (b : Backend V)

theorem bulkSave_length (ops : List (SaveOp V)) (fails : List Bool) :
    (bulkSave decode b ops fails).2.length = ops.length := by
  induction ops generalizing b fails with
  | nil => rfl
  | cons op ops ih =>
    simp only [bulkSave]
    split
    · simp [ih]
    · simp [ih]

variable (cfg : Config V)

theorem flushChunk_items (b : Backend V) (chunk : List (SaveItem V)) (fails : List Bool) :
    (flushChunk cfg b chunk fails).2.map Prod.fst = chunk := by
  apply map_fst_zip
  simp [bulkSave_length]

variable {fails : List Bool}

theorem headD_of_not_mem (h : true ∉ fails) : fails.headD false = false := by
  cases fails with
  | nil => rfl
  | cons f =>
    cases f with
    | false => rfl
    | true => exact absurd mem_cons_self h

theorem bulkSave_results (ops : List (SaveOp V)) (h : true ∉ fails) :
    .failed ∉ (bulkSave decode b ops fails).2 := by
  induction ops generalizing b fails with
  | nil => simp [bulkSave]
  | cons op ops ih =>
    have htail : true ∉ fails.tail := fun hmem => h (mem_of_mem_tail hmem)
    simp only [bulkSave, headD_of_not_mem h, Bool.false_eq_true, if_false, mem_cons, not_or]
    refine ⟨?_, ih _ htail⟩
    split <;> simp

theorem flushChunk_rejected (b : Backend V) (chunk : List (SaveItem V)) (h : true ∉ fails) :
    rejected (flushChunk cfg b chunk fails).2 = [] := by
  simp only [rejected, map_eq_nil_iff, filter_eq_nil_iff, decide_eq_true_eq]
  rintro ⟨w, r⟩ hmem rfl
  exact bulkSave_results cfg.decode b _ h (of_mem_zip hmem).2

theorem flushChunk_clean {b : Backend V} (h : rejected (flushChunk cfg b chunk fails).2 = [])
    (hw : w ∈ chunk) :
    ∃ r, (w, r) ∈ (flushChunk cfg b chunk fails).2 ∧ r ≠ .failed := by
  rw [← flushChunk_items cfg b chunk fails, mem_map] at hw
  obtain ⟨⟨w, r⟩, hmem, rfl⟩ := hw
  simp only [rejected, map_eq_nil_iff, filter_eq_nil_iff, decide_eq_true_eq] at h
  exact ⟨r, hmem, h _ hmem⟩

variable {ops : List (SaveOp V)} {t : Target}

theorem bulkSave_other (h : ∀ op ∈ ops, op.target ≠ t) (fails : List Bool) :
    (bulkSave decode b ops fails).1 t = b t := by
  induction ops generalizing b fails with
  | nil => rfl
  | cons op ops ih =>
    have hrest : ∀ x ∈ ops, x.target ≠ t := fun x hx => h x (mem_cons_of_mem op hx)
    simp only [bulkSave]
    split
    · exact ih b hrest fails.tail
    · rw [ih (saveOne decode b op) hrest fails.tail]
      exact save_other b op.version _ (Ne.symm (h op mem_cons_self))

theorem flushChunk_other (b : Backend V) (h : ∀ w ∈ chunk, w.target ≠ t) (fails : List Bool) :
    (flushChunk cfg b chunk fails).1 t = b t := by
  refine bulkSave_other cfg.decode b ?_ fails
  intro op hop
  obtain ⟨w, hw, rfl⟩ := mem_map.mp hop
  exact h w hw

variable {op : SaveOp V}

theorem saveOne_congr {b b' : Backend V} (h : b op.target = b' op.target) :
    saveOne decode b op op.target = saveOne decode b' op op.target := by
  simp only [saveOne]
  rw [save_self, save_self, h]

theorem bulkSave_self (hnodup : (ops.map SaveOp.target).Nodup) (hop : op ∈ ops) (h : true ∉ fails) :
    (bulkSave decode b ops fails).1 op.target = saveOne decode b op op.target := by
  induction ops generalizing b fails with
  | nil => simp at hop
  | cons o ops ih =>
    have htail : true ∉ fails.tail := fun hmem => h (mem_of_mem_tail hmem)
    obtain ⟨hfresh, hrest⟩ := nodup_cons.mp hnodup
    simp only [bulkSave, headD_of_not_mem h, Bool.false_eq_true, if_false]
    rcases mem_cons.mp hop with rfl | hmem
    · apply bulkSave_other
      intro x hx heq
      exact hfresh (heq ▸ mem_map_of_mem hx)
    · have hne : op.target ≠ o.target := fun heq => hfresh (heq ▸ mem_map_of_mem hmem)
      rw [ih (saveOne decode b o) hrest hmem htail]
      exact saveOne_congr decode (save_other b _ _ hne)

theorem bulkSave_cases (hnodup : (ops.map SaveOp.target).Nodup) (fails : List Bool) (t : Target) :
    (bulkSave decode b ops fails).1 t = b t ∨
      ∃ op ∈ ops, op.target = t ∧ (bulkSave decode b ops fails).1 t = saveOne decode b op t := by
  induction ops generalizing b fails with
  | nil => exact .inl rfl
  | cons o ops ih =>
    obtain ⟨hfresh, hrest⟩ := nodup_cons.mp hnodup
    simp only [bulkSave]
    split
    · rcases ih b hrest fails.tail with hsame | ⟨op, hop, hto, hnew⟩
      · exact .inl hsame
      · exact .inr ⟨op, mem_cons_of_mem o hop, hto, hnew⟩
    by_cases ht : o.target = t
    · refine .inr ⟨o, mem_cons_self, ht, ?_⟩
      apply bulkSave_other
      intro x hx heq
      exact hfresh (ht ▸ heq ▸ mem_map_of_mem hx)
    have hsame : saveOne decode b o t = b t := save_other b _ _ (Ne.symm ht)
    rcases ih (saveOne decode b o) hrest fails.tail with hold | ⟨op, hop, rfl, hnew⟩
    · exact .inl (hold.trans hsame)
    · exact .inr ⟨op, mem_cons_of_mem o hop, rfl, hnew.trans (saveOne_congr decode hsame)⟩

theorem atLeast_bulkSave {b : Backend V} (h : AtLeast b t v) (ops : List (SaveOp V))
    (fails : List Bool) : AtLeast (bulkSave decode b ops fails).1 t v := by
  induction ops generalizing b fails with
  | nil => exact h
  | cons op ops ih =>
    simp only [bulkSave]
    split
    · exact ih h fails.tail
    · exact ih (h.save _ _ _) fails.tail

theorem atLeast_of_bulkSave (hmem : (op, result) ∈ ops.zip (bulkSave decode b ops fails).2)
    (hresult : result ≠ .failed) :
    AtLeast (bulkSave decode b ops fails).1 op.target op.version := by
  induction ops generalizing b fails with
  | nil => simp at hmem
  | cons o ops ih =>
    simp only [bulkSave] at hmem ⊢
    split at hmem <;> rename_i hfails
    · rw [if_pos hfails]
      rcases mem_cons.mp hmem with heq | hrest
      · exact absurd (Prod.mk.inj heq).2 hresult
      · exact ih b hrest
    rw [if_neg hfails]
    rcases mem_cons.mp hmem with heq | hrest
    · obtain rfl : op = o := (Prod.mk.inj heq).1
      exact atLeast_bulkSave decode (atLeast_save_self b _ _ _) ops fails.tail
    · exact ih _ hrest

def saveJournalEntries (items : List (SaveItem V)) : List (JournalEntry V) :=
  items.map fun item => ⟨[item]⟩

def removeItem (rk : RemoveKey) (r : RemoveId) : SaveItem V where
  target := rk.target r.id
  version := 0
  fence := rk.fence
  ownerSid := rk.ownerSid
  shared := rk.shared
  mask := 0
  mode := .full
  data := []
  patch := .none
  tracker := none
  targets := []
  stamps := r.stamps

def removeJournalEntries (removes : List (RemoveKey × List RemoveId)) : List (JournalEntry V) :=
  removes.map fun group => ⟨group.2.map (removeItem group.1)⟩

def rollbackPersistItem (dirty : Nat → UInt64) (item : SaveItem V) : Nat → UInt64 :=
  (if item.targets = [] then [⟨item.tracker, item.mask⟩] else item.targets).foldl
    (fun d (st : SaveTarget) => match st.tracker with
      | some k => Function.update d k (d k ||| st.mask)
      | none => d)
    dirty

def rollbackPersistItems (dirty : Nat → UInt64) (items : List (SaveItem V)) : Nat → UInt64 :=
  items.foldl rollbackPersistItem dirty

def continueRemoves (batch : Batch V) (todo : List (RemoveKey × List RemoveId)) : PC V :=
  if todo = [] then .finish false else .removing batch todo

def continueSaves (batch : Batch V) (todo : List (SaveItem V)) : PC V :=
  match todo with
  | [] => continueRemoves batch batch.removes
  | _ :: _ => .saving batch todo

def afterSaves (batch : Batch V) (todo : List (SaveItem V)) (failed : Bool) : PC V :=
  if failed then .requeue (saveJournalEntries batch.saves)
  else continueSaves batch todo

/-- Where a `FlushAll` call goes when it ends. -/
def flushAllDone : Pid → Bool → PC V
  | .stop, true => .rollbackPending
  | .stop, false => .stopWal
  | _, failed => .returned failed

def afterBatch : Pid → Bool → PC V
  | .worker _, _ => .idle
  | p, true => flushAllDone p true
  | _, false => .loop

/-- A worker takes a batch at its tick, a `FlushAll` call at the head of its
loop. -/
def canTake (cfg : Config V) (s : State V) (p : Pid) : Bool :=
  match p, s.procs p with
  | .worker i, .idle => s.started && decide (i < cfg.flushWorkers)
  | .flush _, .loop => true
  | .stop, .loop => true
  | _, _ => false

def takeStep (cfg : Config V) (s : State V) (p : Pid) : Option (State V) :=
  if canTake cfg s p then
    let popped := s.journal.tryPopBatch cfg.batchSize
    if popped.1 = [] then
      match p with
      | .worker _ => some (if s.journal.closed then s.setPc p .exited else s)
      | _ => some (s.setPc p .check)
    else
      let batch := dedup popped.1
      some { s.setPc p (continueSaves batch batch.saves) with
        journal := popped.2
        inFlight := s.inFlight + 1 }
  else none

def saveStep (cfg : Config V) (s : State V) (p : Pid) (outcome : SaveOutcome) : Option (State V) :=
  match s.procs p with
  | .saving batch todo =>
    let chunk := todo.take (chunkLength cfg todo)
    let rest := todo.drop (chunkLength cfg todo)
    match outcome with
    | .error false => some s
    | .error true =>
      some { s.setPc p (.requeue (saveJournalEntries batch.saves)) with
        dirty := rollbackPersistItems s.dirty chunk }
    | .mismatch fails =>
      some { s.setPc p (.requeue (saveJournalEntries batch.saves)) with
        backend := (flushChunk cfg s.backend chunk fails).1
        dirty := rollbackPersistItems s.dirty chunk }
    | .results fails =>
      let reply := flushChunk cfg s.backend chunk fails
      let failed := !(rejected reply.2).isEmpty
      some { s.setPc p
          (if cfg.hasWal ∧ acked reply.2 ≠ [] then
            .ackSaves batch rest failed (acked reply.2)
          else afterSaves batch rest failed) with
        backend := reply.1
        dirty := rollbackPersistItems s.dirty (rejected reply.2)
        writes := s.writes ++ reply.2 }
  | _ => none

/-- `flushSaveBatch` ignores the WAL's answer, `flushRemoves` repeats the remove. -/
def ackStep (s : State V) (p : Pid) (outcome : CallOutcome) : Option (State V) :=
  match s.procs p with
  | .ackSaves batch todo failed _ => some (s.setPc p (afterSaves batch todo failed))
  | .ackRemoves batch group todo =>
    match outcome with
    | .ok => some (s.setPc p (continueRemoves batch todo))
    | .error false => some (s.setPc p (.removing batch (group :: todo)))
    | .error true => some (s.setPc p (.requeue (removeJournalEntries batch.removes)))
  | _ => none

def removeStep (cfg : Config V) (s : State V) (p : Pid) (i : Nat)
    (outcome : CallOutcome) : Option (State V) :=
  match s.procs p with
  | .removing batch todo =>
    match todo[i]? with
    | none => none
    | some group =>
      match outcome with
      | .ok =>
        some { s.setPc p
            (if cfg.hasWal then .ackRemoves batch group (todo.eraseIdx i)
              else continueRemoves batch (todo.eraseIdx i)) with
          backend := remove s.backend
            (group.2.map fun r => group.1.target r.id)
          removed := s.removed ++
            group.2.map fun r => (group.1.target r.id, r.stamps) }
      | .error false => some s
      | .error true => some (s.setPc p (.requeue (removeJournalEntries batch.removes)))
  | _ => none

def joinStep (cfg : Config V) (s : State V) (ok : Bool) : Option (State V) :=
  match s.procs .stop with
  | .joinWorkers =>
    if ok then
      if (List.range cfg.flushWorkers).all fun i =>
          match s.procs (.worker i) with
          | .exited => true
          | _ => false
      then some (s.setPc .stop .loop)
      else none
    else some (s.setPc .stop .rollbackPending)
  | _ => none

def next [DecidableEq V] (cfg : Config V) (s : State V) : Label V → Option (State V)
  | .start =>
    if s.running ∨ s.stopped then none
    else some { s with started := true, running := true }
  | .push items =>
    (s.journal.push (stampItems s.admitted.length items)).map fun journal =>
      { s with
        journal := journal
        admitted := s.admitted ++ stampItems s.admitted.length items }
  | .flush i =>
    if s.running ∧ ¬ s.stopped then
      match s.procs (.flush i) with
      | .idle | .returned _ =>
        some { s.setPc (.flush i) .loop with
          since := Function.update s.since i s.admitted.length }
      | _ => none
    else none
  | .stop =>
    if s.running then
      match s.procs .stop with
      | .idle => some { s.setPc .stop .closeJournal with running := false, stopped := true }
      | _ => none
    else
      some { s with
        journal := if s.stopped then s.journal else s.journal.close
        stopped := true
        idleStops := s.idleStops + 1 }
  | .take p => takeStep cfg s p
  | .check p =>
    match s.procs p with
    | .check =>
      some (s.setPc p (if s.inFlight = 0 ∧ s.journal.entries = [] then
        flushAllDone p false else .wait))
    | _ => none
  | .receive p =>
    match s.procs p, s.progress with
    | .wait, true => some { s.setPc p .loop with progress := false }
    | _, _ => none
  | .cancel p =>
    match s.procs p with
    | .loop | .wait => some (s.setPc p (flushAllDone p true))
    | _ => none
  | .save p outcome => saveStep cfg s p outcome
  | .ack p outcome => ackStep s p outcome
  | .remove p i outcome => removeStep cfg s p i outcome
  | .requeue p order =>
    match s.procs p with
    | .requeue entries =>
      if order.Perm entries then
        some { s.setPc p (.finish true) with journal := (s.journal.pushFront order).1 }
      else none
    | _ => none
  | .finish p =>
    match s.procs p with
    | .finish failed => some { s.setPc p (.notify failed) with inFlight := s.inFlight - 1 }
    | _ => none
  | .notify p =>
    match s.procs p with
    | .notify failed => some { s.setPc p (afterBatch p failed) with progress := true }
    | _ => none
  | .exit i =>
    match s.procs (.worker i) with
    | .idle =>
      if s.started ∧ i < cfg.flushWorkers then some (s.setPc (.worker i) .exited)
      else none
    | _ => none
  | .close =>
    match s.procs .stop with
    | .closeJournal => some { s.setPc .stop .joinWorkers with journal := s.journal.close }
    | _ => none
  | .join ok => joinStep cfg s ok
  | .rollbackPending =>
    match s.procs .stop with
    | .rollbackPending =>
      some { s.setPc .stop (.returned true) with
        journal := s.journal.drainAll.2
        dirty := rollbackPersistItems s.dirty
          ((opsOf s.journal.drainAll.1).filter fun item => !item.isRemove) }
    | _ => none
  | .stopWal ok =>
    match s.procs .stop with
    | .stopWal => some (s.setPc .stop (.returned (cfg.hasWal && !ok)))
    | _ => none

end CubeCore.FlusherSystem
