import CubeCore.EntityGuard
import CubeCore.LockOrder
import CubeCore.TransitionSystem
import Mathlib.Data.List.ReduceOption

namespace CubeCore.DispatchLocks

open EntityGuard LockOrder TransitionSystem Function Option

/-- A message, with the entities that the getter found and that could be touched. -/
inductive Dispatch where
  | single (e : Option Int)
  | multi (es : List (Option Int))
  | multiGroup (groups : List (List (Option Int)))
  | broadcast (ids : List Int)
  | groupTransition (e : Option Int)

/-- What follows the lock loop: the group snapshots are checked, or the group is updated. -/
inductive After where
  | validate (lockEs : List Int) (attempt : Nat)
  | transition

/-- Who called the handler. -/
inductive Frame where
  | dispatch (acquired : List Int)
  | broadcast (current : Int) (rest : List Int)

/-- `locking` is the loop of a dispatch, `casting` that of `CastMulti`, `requiring` the
`RequireEntity` of a broadcast. -/
inductive PC where
  | idle
  | resolving (lockEs : List Int) (attempt : Nat)
  | locking (useTryLock : Bool) (todo acquired : List Int) (after : After)
  | validating (acquired lockEs : List Int) (attempt : Nat)
  | handler (frame : Frame)
  | casting (frame : Frame) (todo lockedNow : List Int)
  | broadcast (rest : List Int)
  | requiring (id : Int) (rest : List Int)
  | updating (acquired : List Int)
  | ending

/-- A dispatch has no group, has its lock, or is refused. -/
inductive GroupLock where
  | none
  | held
  | refused

inductive Snapshots where
  | same
  | changed
  | pending

/-- `lock live` succeeds, `live` unless the entity is cleared or removed; `busy` is a failed
`TryLock`; `found` is the getter's answer. -/
inductive Act where
  | start (d : Dispatch)
  | resolve (group : GroupLock)
  | skip
  | lock (live : Bool)
  | busy
  | untouched
  | loopDone
  | validate (snapshots : Snapshots)
  | castMulti (targets : List Int) (found : Bool)
  | releaseCast (id : Int)
  | createInScope (id : Int)
  | next (found : Bool)
  | returns
  | release

def entityLockGroupDispatchRetryMax : Nat := 4

def without (guard ids : List Int) : List Int := guard.filter (· ∉ ids)

section Model

variable (groupOf : Int → Int)

def lockEntities (es : List (Option Int)) : PC :=
  match es with
  | some _ :: _ => .resolving (sortEntity groupOf es.reduceOption) 0
  | _ => .ending

def begin : Dispatch → PC
  | .single (some e) => .resolving [e] 0
  | .single none => .ending
  | .multi es => lockEntities groupOf es
  | .multiGroup groups => lockEntities groupOf groups.flatten
  | .broadcast ids => .broadcast ids
  | .groupTransition (some e) => .locking true [e] [] .transition
  | .groupTransition none => .ending

def useTryLock (guard lockEs : List Int) : Bool :=
  decide (guard ≠ []) && !checkContainAllIDs groupOf guard lockEs

/-- One step of a goroutine. `free` says which mutexes nobody owns. -/
def localStep (free : Int → Bool) (guard : List Int) : PC → Act → Option (List Int × PC)
  | .idle, .start d => some (guard, begin groupOf d)
  | .resolving lockEs attempt, .resolve .none =>
    some (guard, .locking (useTryLock groupOf guard lockEs) lockEs [] (.validate lockEs attempt))
  | .resolving lockEs attempt, .resolve .held =>
    some (guard, .locking true lockEs [] (.validate lockEs attempt))
  | .resolving _ _, .resolve .refused => some (guard, .ending)
  | .locking tryLock (id :: todo) acquired after, .skip =>
    if id ∈ guard then some (guard, .locking tryLock todo acquired after) else none
  | .locking tryLock (id :: todo) acquired after, .lock live =>
    if id ∈ guard ∨ !free id then none
    else if live then some (guard ++ [id], .locking tryLock todo (acquired ++ [id]) after)
    else some (without guard acquired, .ending)
  | .locking true (id :: _) acquired _, .busy =>
    if id ∈ guard ∨ free id then none else some (without guard acquired, .ending)
  | .locking _ [] acquired (.validate lockEs attempt), .loopDone =>
    some (guard, .validating acquired lockEs attempt)
  | .locking _ [] acquired .transition, .loopDone => some (guard, .updating acquired)
  | .validating acquired _ _, .validate .same => some (guard, .handler (.dispatch acquired))
  | .validating acquired lockEs attempt, .validate .changed =>
    some (without guard acquired,
      if attempt + 1 < entityLockGroupDispatchRetryMax then .resolving lockEs (attempt + 1)
      else .ending)
  | .validating acquired _ _, .validate .pending => some (without guard acquired, .ending)
  | .handler frame, .castMulti targets found =>
    some (guard,
      if targets ≠ [] ∧ checkContainAllIDs groupOf guard targets ∧ found then
        .casting frame (sortEntity groupOf targets) []
      else .handler frame)
  | .casting frame (id :: todo) lockedNow, .skip =>
    if id ∈ guard then some (guard, .casting frame todo lockedNow) else none
  | .casting frame (id :: todo) lockedNow, .lock live =>
    if id ∈ guard ∨ !free id then none
    else if live then some (guard ++ [id], .casting frame todo (lockedNow ++ [id]))
    else some (without guard lockedNow, .handler frame)
  | .casting frame (id :: _) lockedNow, .untouched =>
    if id ∈ guard then none else some (without guard lockedNow, .handler frame)
  | .casting frame [] _, .loopDone => some (guard, .handler frame)
  | .handler frame, .releaseCast id => some (without guard [id], .handler frame)
  | .handler frame, .createInScope id =>
    if id ∈ guard ∨ !free id then none else some (guard ++ [id], .handler frame)
  | .handler (.dispatch acquired), .returns => some (without guard acquired, .ending)
  | .handler (.broadcast current rest), .returns =>
    some (without guard [current], .broadcast rest)
  | .broadcast (id :: rest), .next found =>
    some (guard, if found then .requiring id rest else .broadcast rest)
  | .broadcast [], .loopDone => some (guard, .ending)
  | .requiring id rest, .skip =>
    if id ∈ guard then some (guard, .handler (.broadcast id rest)) else none
  | .requiring id rest, .lock live =>
    if id ∈ guard ∨ !free id then none
    else if live then some (guard ++ [id], .handler (.broadcast id rest))
    else some (guard, .broadcast rest)
  | .updating acquired, .returns => some (without guard acquired, .ending)
  | .ending, .release => some ([], .idle)
  | _, _ => none

structure Locks where
  owner : Int → Option Nat
  guard : Nat → List Int
  pc : Nat → PC

/-- Goroutine `g` goes on with this guard and owns the mutexes in it. -/
def Locks.settle (s : Locks) (g : Nat) (guard : List Int) (pc : PC) : Locks where
  owner id :=
    if id ∈ guard then some g else if id ∈ s.guard g then none else s.owner id
  guard := Function.update s.guard g guard
  pc := Function.update s.pc g pc

def next (s : Locks) (l : Nat × Act) : Option Locks :=
  (localStep groupOf (fun id => (s.owner id).isNone) (s.guard l.1) (s.pc l.1) l.2).map
    fun r => s.settle l.1 r.1 r.2

def initial : Locks := ⟨fun _ => none, fun _ => [], fun _ => .idle⟩

/-- The entity whose mutex a goroutine is about to lock, waiting for it if it
must. -/
def acquiring (guard : List Int) : PC → Option Int
  | .locking false (id :: _) _ _ => if id ∈ guard then none else some id
  | .casting _ (id :: _) _ => if id ∈ guard then none else some id
  | .requiring id _ => if id ∈ guard then none else some id
  | _ => none

def Locks.waiting (s : Locks) (g : Nat) : Option Int := acquiring (s.guard g) (s.pc g)

end Model

section Order

variable {groupOf : Int → Int}

instance : IsStrictOrder Int (fun i j => cmpGuidFunc groupOf i j = true) where
  irrefl i h := by simp [cmpGuidFunc_irrefl] at h
  trans _ _ _ := cmpGuidFunc_trans

/-- Every entity of `todo` that is not locked yet comes after all the locked ones. -/
def Ahead (groupOf : Int → Int) (guard todo : List Int) : Prop :=
  ∀ id ∈ todo, id ∉ guard → ∀ held ∈ guard, cmpGuidFunc groupOf held id = true

instance (guard todo : List Int) : Decidable (Ahead groupOf guard todo) :=
  inferInstanceAs (Decidable (∀ id ∈ todo, id ∉ guard → ∀ held ∈ guard, _ = true))

/-- The rest of a lock loop that goes through its entities in order. -/
structure Queue (groupOf : Int → Int) (guard todo : List Int) : Prop where
  sorted : todo.Pairwise (NotAfter groupOf)
  ahead : Ahead groupOf guard todo

variable {guard todo : List Int} {id : Int}

theorem Ahead.tail (h : Ahead groupOf guard (id :: todo)) : Ahead groupOf guard todo :=
  fun id' hid => h id' (List.mem_cons_of_mem _ hid)

theorem Queue.tail (h : Queue groupOf guard (id :: todo)) : Queue groupOf guard todo :=
  ⟨h.sorted.tail, h.ahead.tail⟩

theorem Queue.lock (h : Queue groupOf guard (id :: todo)) : Queue groupOf (guard ++ [id]) todo := by
  refine ⟨h.sorted.tail, ?_⟩
  intro id' hid hnew held hheld
  simp only [List.mem_append, List.mem_singleton, not_or] at hnew hheld
  rcases hheld with hheld | rfl
  · exact h.ahead id' (by simp [hid]) hnew.1 held hheld
  · have hle : NotAfter groupOf held id' := (List.pairwise_cons.mp h.sorted).1 id' hid
    exact (notAfter_iff.mp hle).resolve_right fun heq => hnew.2 heq.symm

theorem queue_of_not_useTryLock (h : useTryLock groupOf guard todo = false)
    (hsorted : todo.Pairwise (NotAfter groupOf)) : Queue groupOf guard todo := by
  refine ⟨hsorted, fun id hid hnew held hheld => ?_⟩
  have hguard : guard ≠ [] := List.ne_nil_of_mem hheld
  apply before_of_checkContainAllIDs _ hid hnew hheld
  simpa [useTryLock, hguard] using h

theorem mem_without : id ∈ without guard ids ↔ id ∈ guard ∧ id ∉ ids := by
  simp [without]

end Order

section Local

variable {groupOf : Int → Int} {free : Int → Bool} {guard guard' : List Int} {pc pc' : PC} {a : Act}

inductive Stepped (groupOf : Int → Int) (free : Int → Bool) (guard : List Int) :
    PC → Act → List Int → PC → Prop
  | start : Stepped groupOf free guard .idle (.start d) guard (begin groupOf d)
  | ungrouped :
      Stepped groupOf free guard (.resolving lockEs n) (.resolve .none) guard
        (.locking (useTryLock groupOf guard lockEs) lockEs [] (.validate lockEs n))
  | grouped :
      Stepped groupOf free guard (.resolving lockEs n) (.resolve .held) guard
        (.locking true lockEs [] (.validate lockEs n))
  | refused : Stepped groupOf free guard (.resolving lockEs n) (.resolve .refused) guard .ending
  | skip (hmem : e ∈ guard) :
      Stepped groupOf free guard (.locking tryLock (e :: todo) acquired after) .skip guard
        (.locking tryLock todo acquired after)
  | lock (hfree : free e = true) (hlive : live = true) :
      Stepped groupOf free guard (.locking tryLock (e :: todo) acquired after) (.lock live)
        (guard ++ [e]) (.locking tryLock todo (acquired ++ [e]) after)
  | dead :
      Stepped groupOf free guard (.locking tryLock (e :: todo) acquired after) (.lock live)
        (without guard acquired) .ending
  | busy :
      Stepped groupOf free guard (.locking true (e :: todo) acquired after) .busy
        (without guard acquired) .ending
  | locked :
      Stepped groupOf free guard (.locking tryLock [] acquired (.validate lockEs n)) .loopDone
        guard (.validating acquired lockEs n)
  | lockedOne :
      Stepped groupOf free guard (.locking tryLock [] acquired .transition) .loopDone guard
        (.updating acquired)
  | same :
      Stepped groupOf free guard (.validating acquired lockEs n) (.validate .same) guard
        (.handler (.dispatch acquired))
  | retry :
      Stepped groupOf free guard (.validating acquired lockEs n) (.validate .changed)
        (without guard acquired) (.resolving lockEs (n + 1))
  | giveUp :
      Stepped groupOf free guard (.validating acquired lockEs n) (.validate .changed)
        (without guard acquired) .ending
  | pending :
      Stepped groupOf free guard (.validating acquired lockEs n) (.validate .pending)
        (without guard acquired) .ending
  | cast (hadmitted : targets ≠ [] ∧ checkContainAllIDs groupOf guard targets ∧ found = true) :
      Stepped groupOf free guard (.handler frame) (.castMulti targets found) guard
        (.casting frame (sortEntity groupOf targets) [])
  | noCast : Stepped groupOf free guard (.handler frame) (.castMulti targets found) guard
      (.handler frame)
  | castSkip :
      Stepped groupOf free guard (.casting frame (e :: todo) lockedNow) .skip guard
        (.casting frame todo lockedNow)
  | castLock (hfree : free e = true) (hlive : live = true) :
      Stepped groupOf free guard (.casting frame (e :: todo) lockedNow) (.lock live)
        (guard ++ [e]) (.casting frame todo (lockedNow ++ [e]))
  | castDead :
      Stepped groupOf free guard (.casting frame (e :: todo) lockedNow) (.lock live)
        (without guard lockedNow) (.handler frame)
  | untouched :
      Stepped groupOf free guard (.casting frame (e :: todo) lockedNow) .untouched
        (without guard lockedNow) (.handler frame)
  | castDone : Stepped groupOf free guard (.casting frame [] lockedNow) .loopDone guard
      (.handler frame)
  | releaseCast :
      Stepped groupOf free guard (.handler frame) (.releaseCast e) (without guard [e])
        (.handler frame)
  | create (hfree : free e = true) :
      Stepped groupOf free guard (.handler frame) (.createInScope e) (guard ++ [e])
        (.handler frame)
  | returns :
      Stepped groupOf free guard (.handler (.dispatch acquired)) .returns (without guard acquired)
        .ending
  | broadcastReturns :
      Stepped groupOf free guard (.handler (.broadcast current rest)) .returns
        (without guard [current]) (.broadcast rest)
  | found : Stepped groupOf free guard (.broadcast (e :: rest)) (.next ok) guard (.requiring e rest)
  | missing : Stepped groupOf free guard (.broadcast (e :: rest)) (.next ok) guard (.broadcast rest)
  | broadcastDone : Stepped groupOf free guard (.broadcast []) .loopDone guard .ending
  | requireSkip : Stepped groupOf free guard (.requiring e rest) .skip guard
      (.handler (.broadcast e rest))
  | requireLock (hfree : free e = true) (hlive : live = true) :
      Stepped groupOf free guard (.requiring e rest) (.lock live) (guard ++ [e])
        (.handler (.broadcast e rest))
  | requireDead : Stepped groupOf free guard (.requiring e rest) (.lock live) guard
      (.broadcast rest)
  | updated :
      Stepped groupOf free guard (.updating acquired) .returns (without guard acquired) .ending
  | release : Stepped groupOf free guard .ending .release [] .idle

theorem stepped_of_localStep (h : localStep groupOf free guard pc a = some (guard', pc')) :
    Stepped groupOf free guard pc a guard' pc' := by
  have hfree : ∀ {id}, ¬ (id ∈ guard ∨ (!free id) = true) → free id = true := by
    intro id hnot
    simpa using (not_or.mp hnot).2
  unfold localStep at h
  split at h
  all_goals
    first
    | (split at h <;> try split at h)
    | skip
  all_goals
    simp only [some.injEq, Prod.mk.injEq, reduceCtorEq] at h
  all_goals
    obtain ⟨rfl, rfl⟩ := h
    constructor
  all_goals
    first
    | assumption
    | exact hfree ‹_›

theorem Stepped.free_of_mem (h : Stepped groupOf free guard pc a guard' pc') {id : Int}
    (hid : id ∈ guard') : id ∈ guard ∨ free id = true := by
  have hkept : ∀ {ids}, id ∈ without guard ids → id ∈ guard ∨ free id = true :=
    fun hmem => .inl (mem_without.mp hmem).1
  have hlocked : ∀ {id'}, free id' = true → id ∈ guard ++ [id'] → id ∈ guard ∨ free id = true := by
    intro id' hfree hmem
    rcases List.mem_append.mp hmem with hold | hnew
    · exact .inl hold
    · exact .inr (List.mem_singleton.mp hnew ▸ hfree)
  cases h with
  | lock hfree | castLock hfree | create hfree | requireLock hfree => exact hlocked hfree hid
  | release => exact absurd hid List.not_mem_nil
  | _ => first | exact .inl hid | exact hkept hid

/-- What a goroutine keeps about the order in which it goes on locking. -/
def Orderly (groupOf : Int → Int) (guard : List Int) : PC → Prop
  | .idle => guard = []
  | .resolving lockEs _ => lockEs.Pairwise (NotAfter groupOf)
  | .locking tryLock todo _ after =>
    (tryLock = false → Queue groupOf guard todo) ∧
      ∀ lockEs attempt, after = .validate lockEs attempt → lockEs.Pairwise (NotAfter groupOf)
  | .validating _ lockEs _ => lockEs.Pairwise (NotAfter groupOf)
  | .casting _ todo _ => Queue groupOf guard todo
  | .broadcast rest => Ahead groupOf guard rest
  | .requiring id rest => Ahead groupOf guard (id :: rest)
  | _ => True

theorem orderly_begin (d : Dispatch) : Orderly groupOf [] (begin groupOf d) := by
  have hlock : ∀ es, Orderly groupOf [] (lockEntities groupOf es) := by
    intro es
    unfold lockEntities
    split
    · exact sortEntity_pairwise _
    · trivial
  cases d with
  | single e | groupTransition e => cases e <;> simp [begin, Orderly]
  | multi es => exact hlock es
  | multiGroup groups => exact hlock groups.flatten
  | broadcast => simp [begin, Orderly, Ahead]

/-- A broadcast handler returns with entities that come before those still to be locked. -/
def ReturnsInOrder (groupOf : Int → Int) (guard : List Int) (pc : PC) (a : Act) : Prop :=
  ∀ current rest, pc = .handler (.broadcast current rest) → a = .returns →
    Ahead groupOf (without guard [current]) rest

theorem orderly_stepped (hreturn : ReturnsInOrder groupOf guard pc a)
    (ho : Orderly groupOf guard pc) (h : Stepped groupOf free guard pc a guard' pc') :
    Orderly groupOf guard' pc' := by
  have hafter : ∀ {lockEs n}, lockEs.Pairwise (NotAfter groupOf) →
      ∀ lockEs' n', After.validate lockEs n = .validate lockEs' n' →
        lockEs'.Pairwise (NotAfter groupOf) := by
    rintro _ _ hsorted _ _ ⟨⟩
    exact hsorted
  cases h with
  | @start d =>
    rw [show guard = [] from ho]
    exact orderly_begin d
  | ungrouped => exact ⟨fun htry => queue_of_not_useTryLock htry ho, hafter ho⟩
  | grouped => exact ⟨by simp, hafter ho⟩
  | skip => exact ⟨fun htry => (ho.1 htry).tail, ho.2⟩
  | lock => exact ⟨fun htry => (ho.1 htry).lock, ho.2⟩
  | locked => exact ho.2 _ _ rfl
  | retry | found => exact ho
  | cast hadmitted =>
    refine ⟨sortEntity_pairwise _, fun id hid hnew held hheld => ?_⟩
    exact before_of_checkContainAllIDs hadmitted.2.1 (mem_sortEntity.mp hid) hnew hheld
  | castSkip => exact Queue.tail ho
  | castLock => exact Queue.lock ho
  | broadcastReturns => exact hreturn _ _ rfl rfl
  | missing | requireDead => exact Ahead.tail ho
  | release => rfl
  | _ => trivial

theorem before_of_acquiring (ho : Orderly groupOf guard pc) {id : Int}
    (h : acquiring guard pc = some id) {held : Int} (hheld : held ∈ guard) :
    cmpGuidFunc groupOf held id = true := by
  have hnext : ∀ {id' : Int} {todo : List Int}, Ahead groupOf guard (id' :: todo) →
      (if id' ∈ guard then none else some id') = some id → cmpGuidFunc groupOf held id = true := by
    intro id' todo hahead hid
    split_ifs at hid with hnew
    cases hid
    exact hahead id (by simp) hnew held hheld
  unfold acquiring at h
  split at h
  · exact hnext (ho.1 rfl).ahead h
  · exact hnext (Queue.ahead ho) h
  · exact hnext ho h
  · cases h

end Local

section Runs

variable {groupOf : Int → Int} {s s' : Locks}

/-- A mutex is owned by the goroutine that has its entity in the guard. -/
def Owned (s : Locks) : Prop := ∀ id g, s.owner id = some g ↔ id ∈ s.guard g

theorem owned_settle (h : Owned s) {guard : List Int}
    (hfree : ∀ id ∈ guard, id ∈ s.guard g ∨ (s.owner id).isNone = true) :
    Owned (s.settle g guard pc) := by
  intro id g'
  simp only [Locks.settle]
  rcases eq_or_ne g' g with rfl | hg
  · split_ifs with hout hold
    · simp [hout]
    · simp [hout]
    · rw [h id g']
      simp [hold, hout]
  rw [update_of_ne hg]
  split_ifs with hin hold
  · have hother : s.owner id ≠ some g' := by
      intro heq
      rcases hfree id hin with hold | hnone
      · rw [(h id g).mpr hold, some.injEq] at heq
        exact hg heq.symm
      · simp [heq] at hnone
    refine iff_of_false (fun heq => hg (some.inj heq).symm) ?_
    exact fun hmem => hother ((h id g').mpr hmem)
  · refine iff_of_false (by simp) fun hmem => hg ?_
    have heq := ((h id g').mpr hmem).symm.trans ((h id g).mpr hold)
    exact some.inj heq
  · exact h id g'

/-- The mutexes are owned by the guards, and every goroutine keeps the order. -/
structure Ordered (groupOf : Int → Int) (s : Locks) : Prop where
  owned : Owned s
  orderly : ∀ g, Orderly groupOf (s.guard g) (s.pc g)

/-- The condition on steps: broadcast handlers return in order. -/
def returnsInOrder (groupOf : Int → Int) (s : Locks) (l : Nat × Act) : Prop :=
  ReturnsInOrder groupOf (s.guard l.1) (s.pc l.1) l.2

theorem ordered_next (hinv : Ordered groupOf s) (hreturn : returnsInOrder groupOf s l)
    (h : next groupOf s l = some s') :
    Ordered groupOf s' := by
  obtain ⟨⟨guard, pc⟩, hlocal, rfl⟩ := map_eq_some_iff.mp h
  have hstep := stepped_of_localStep hlocal
  refine ⟨owned_settle hinv.owned fun id hid => hstep.free_of_mem hid, fun g => ?_⟩
  rcases eq_or_ne g l.1 with rfl | hg
  · simp only [Locks.settle, update_self]
    exact orderly_stepped hreturn (hinv.orderly l.1) hstep
  · simp only [Locks.settle, update_of_ne hg]
    exact hinv.orderly g

theorem ordered_initial : Ordered groupOf initial := ⟨fun _ _ => by simp [initial], fun _ => rfl⟩

theorem ordered_of_reach
    (h : Reach (next groupOf) (· = initial) (returnsInOrder groupOf) s) : Ordered groupOf s := by
  refine h.invariant ?_ ?_
  · rintro _ rfl
    exact ordered_initial
  · intro s l s' hinv hreturn hnext
    exact ordered_next hinv hreturn hnext

theorem blocking_in_order (groupOf : Int → Int) {s : Locks}
    (h : Reach (next groupOf) (· = initial) (returnsInOrder groupOf) s) :
    (∀ g id, s.waiting g = some id → ∀ held ∈ s.guard g, cmpGuidFunc groupOf held id = true) ∧
      ∀ g, ¬ Relation.TransGen (WaitsFor s.waiting s.owner) g g := by
  have hinv := ordered_of_reach h
  have horder : ∀ g id, s.waiting g = some id → ∀ held ∈ s.guard g,
      cmpGuidFunc groupOf held id = true :=
    fun g id hwait held hheld => before_of_acquiring (hinv.orderly g) hwait hheld
  refine ⟨horder, ?_⟩
  have hlocks : InOrder (fun i j => cmpGuidFunc groupOf i j = true) s.waiting s.owner :=
    fun g id held hwait howner => horder g id hwait held ((hinv.owned held g).mp howner)
  exact hlocks.no_cycle

/-- The group of an entity is its hundreds digit: players 201 and 202, an
alliance 300. -/
def hundreds (id : Int) : Int := id / 100

/-- A broadcast to two players that casts the alliance, and a dispatch to the second that does
too. -/
def allianceTrace (released : List (Nat × Act)) : List (Nat × Act) :=
  [(0, .start (.broadcast [201, 202])), (0, .next true), (0, .lock true),
    (0, .castMulti [300] true), (0, .lock true), (0, .loopDone)] ++ released ++
  [(0, .returns), (1, .start (.single (some 202))), (1, .resolve .none), (1, .lock true),
    (1, .loopDone), (1, .validate .same), (1, .castMulti [300] true), (0, .next true)]

def returnsTest (groupOf : Int → Int) (s : Locks) (l : Nat × Act) : Bool :=
  match s.pc l.1, l.2 with
  | .handler (.broadcast current rest), .returns =>
    decide (Ahead groupOf (without (s.guard l.1) [current]) rest)
  | _, _ => true

theorem returnsInOrder_of_test (h : returnsTest groupOf s l = true) :
    returnsInOrder groupOf s l := by
  intro current rest hpc hact
  rw [returnsTest, hpc, hact] at h
  exact of_decide_eq_true h

theorem blocking_in_order_released :
    ∃ s, Reach (next hundreds) (· = initial) (returnsInOrder hundreds) s ∧
      s.waiting 0 = some 202 ∧ s.owner 202 = some 1 ∧ s.waiting 1 = some 300 ∧
      ∀ g, ¬ Relation.TransGen (WaitsFor s.waiting s.owner) g g := by
  refine exists_reach_imp (P := fun s => s.waiting 0 = some 202 ∧ s.owner 202 = some 1 ∧
      s.waiting 1 = some 300)
    (exists_of_run rfl (returnsTest hundreds)
      (allianceTrace [(0, .releaseCast 300)]) (fun _ _ _ => returnsInOrder_of_test)
      (by decide +kernel)) ?_
  rintro s hreach ⟨hwait, howner, hwait'⟩
  exact ⟨hwait, howner, hwait', (blocking_in_order hundreds hreach).2⟩

theorem broadcast_waits_in_cycle :
    ∃ s, Reach (next hundreds) (· = initial) anyStep s ∧
      s.waiting 0 = some 202 ∧ 300 ∈ s.guard 0 ∧ cmpGuidFunc hundreds 202 300 = true ∧
      Relation.TransGen (WaitsFor s.waiting s.owner) 0 0 := by
  refine exists_reach_imp (P := fun s => s.waiting 0 = some 202 ∧ s.owner 202 = some 1 ∧
      s.waiting 1 = some 300 ∧ s.owner 300 = some 0 ∧ 300 ∈ s.guard 0)
    (exists_of_anyRun rfl
      (allianceTrace []) (by decide +kernel)) ?_
  rintro s hreach ⟨hwait, howner, hwait', howner', hheld⟩
  refine ⟨hwait, hheld, by decide, ?_⟩
  exact .tail (.single ⟨202, hwait, howner⟩) ⟨300, hwait', howner'⟩

end Runs

end CubeCore.DispatchLocks
