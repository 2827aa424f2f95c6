import CubeCore.ReliableBus

namespace CubeCore.ReliableOutcome

open Interleaving ReliableBus TransitionSystem Function List Option Store

variable {cfg : Config} {g : Nat} {s s' : Bus} {pc pc' : PC} {a : Act}

def markOf (cfg : Config) (s : Bus) (id : String) : Option Mark := s.store.inbox (inboxKey cfg id)

/-- The dead letters of an id in one of the lists. -/
def letters (s : Bus) (id key : String) : List DeadLetterEntry :=
  (s.store.lists key).filter (·.msgID = id)

def NoLetter (s : Bus) (id : String) : Prop := ∀ key, letters s id key = []

def OneLetter (s : Bus) (id : String) : Prop :=
  ∃ key entry, letters s id key = [entry] ∧ ∀ key', key' ≠ key → letters s id key' = []

/-- The handler has returned once, or there is one dead letter. -/
def Outcome (s : Bus) (id : String) : Prop :=
  s.completed.count id = 1 ∧ NoLetter s id ∨ s.completed.count id = 0 ∧ OneLetter s id

/-- The delivery a goroutine has in hand. -/
def PC.holds : PC → Option NatsMsg
  | .dispatch msg | .pick _ msg | .cast _ msg | .push _ msg | .lookup _ msg | .begin _ msg
  | .handle _ msg | .finish _ msg | .append _ msg _ | .mark _ msg => some msg
  | .idle | .loop _ | .closing _ _ | .ended => none

open PC

def Processed (s : Threads Bus PC) : Prop :=
  (∀ g, PC.holds (s.pc g) = none) ∧ ∀ worker, s.shared.queues worker = []

/-- The message that is not dispatched, or not handled for want of a handler. -/
def refuses (cfg : Config) (s : Bus) : PC → Option NatsMsg
  | .dispatch msg => if s.pool = none then some msg else none
  | .pick pool msg => if s.stopped pool ∨ cfg.workerNum = 0 then some msg else none
  | .cast worker msg => if s.closed worker then some msg else none
  | .push worker msg => if (s.queues worker).length < cfg.queueCap then none else some msg
  | .lookup _ msg =>
    if s.handlers (handlerKey msg.toModule msg.msgName) then none else some msg
  | _ => none

/-- The limit of a dead letter list is not reached. -/
def HasRoom (cfg : Config) (s : Bus) (msg : NatsMsg) : Prop :=
  0 < cfg.maxDLQEntries →
    (s.store.lists (deadLetterKey cfg msg.toModule msg.msgName)).length < cfg.maxDLQEntries.toNat

/-- A delivery is refused only while its id has no mark and no other dead letter on its way; none
begins then; and Redis drops nothing. -/
structure Orderly (cfg : Config) (s : Bus) (pc : PC) (a : Act) : Prop where
  refused : ∀ msg, refuses cfg s pc = some msg → msg.msgID ≠ "" →
    markOf cfg s msg.msgID = none ∧ s.owner msg.msgID = none
  begins : ∀ worker msg, pc = .begin worker msg → markOf cfg s msg.msgID = none →
    s.owner msg.msgID = none
  room : ∀ worker msg reason, pc = .append worker msg reason → HasRoom cfg s msg
  mark : ∀ key, a ≠ .expireMark key
  list : ∀ key, a ≠ .expireList key

def orderly (cfg : Config) (s : Threads Bus PC) (l : Nat × Act) : Prop :=
  Orderly cfg s.shared (s.pc l.1) l.2

/-- The goroutine has begun with its message or is writing its dead letter. -/
def PC.owns : PC → Option NatsMsg
  | .handle _ msg | .finish _ msg | .append _ msg _ | .mark _ msg => some msg
  | _ => none

/-- Where the deliveries are after a step. -/
structure Carried (cfg : Config) (s : Bus) (pc : PC) (s' : Bus) (pc' : PC) : Prop where
  queued : ∀ worker, ∀ msg ∈ s.queues worker, msg ∈ s'.queues worker ∨ PC.holds pc' = some msg
  held : ∀ msg, PC.holds pc = some msg → PC.holds pc' = some msg ∨
    (∃ worker, msg ∈ s'.queues worker) ∨ (msg.msgID ≠ "" → markOf cfg s' msg.msgID ≠ none)
  delivered : ∀ id ∈ s'.delivered, id ∈ s.delivered ∨
    ∃ msg, PC.holds pc' = some msg ∧ msg.msgID = id

structure Quiet (s s' : Bus) : Prop where
  store : s'.store = s.store
  completed : s'.completed = s.completed
  owner : s'.owner = s.owner

inductive Effect (cfg : Config) (g : Nat) (s : Bus) : PC → Act → Bus → PC → Prop
  | quiet {pc : PC} {a : Act} {s' : Bus} {pc' : PC} : Quiet s s' → PC.owns pc = none →
      PC.owns pc' = none → Carried cfg s pc s' pc' → Effect cfg g s pc a s' pc'
  | refuse {pc : PC} {a : Act} {worker : Option Nat} {msg : NatsMsg} {reason : String} :
      refuses cfg s pc = some msg → PC.holds pc = some msg →
      Effect cfg g s pc a { s with owner := setOwner s msg (some g) } (.append worker msg reason)
  | begin {a : Act} {worker : Nat} {msg : NatsMsg} {store : Store} :
      s.store.beginConsume cfg msg = (true, store) →
      Effect cfg g s (.begin worker msg) a { s with store, owner := setOwner s msg (some g) }
        (.handle worker msg)
  | returned {a : Act} {worker : Nat} {msg : NatsMsg} :
      Effect cfg g s (.handle worker msg) a { s with completed := msg.msgID :: s.completed }
        (.finish worker msg)
  | panicked {a : Act} {worker : Nat} {msg : NatsMsg} {reason : String} :
      Effect cfg g s (.handle worker msg) a s (.append (some worker) msg reason)
  | finish {a : Act} {worker : Nat} {msg : NatsMsg} :
      Effect cfg g s (.finish worker msg) a
        { s with store := s.store.finishConsume cfg msg, owner := setOwner s msg none }
        (.loop worker)
  | append : Effect cfg g s (.append worker msg reason) (.run now)
        { s with
          store := s.store.appendRaw cfg.maxDLQEntries
            (deadLetterKey cfg msg.toModule msg.msgName) (entryOf cfg msg reason now) }
        (.mark worker msg)
  | mark {a : Act} {worker : Option Nat} {msg : NatsMsg} :
      Effect cfg g s (.mark worker msg) a
        { s with store := s.store.setMark cfg msg .failed, owner := setOwner s msg none }
        (.after worker)
  | expireMark {key : String} {s' : Bus} {pc' : PC} : Effect cfg g s .idle (.expireMark key) s' pc'
  | expireList {key : String} {s' : Bus} {pc' : PC} : Effect cfg g s .idle (.expireList key) s' pc'

theorem carried_same (hqueues : s'.queues = s.queues) (hdelivered : s'.delivered = s.delivered)
    (hholds : holds pc' = holds pc) : Carried cfg s pc s' pc' := by
  refine ⟨fun _ _ h => .inl (hqueues ▸ h), fun _ h => .inl (hholds ▸ h), ?_⟩
  intro id hid
  exact .inl (hdelivered ▸ hid)

theorem quiet_same (hpc : owns pc = none) (hpc' : owns pc' = none) (hholds : holds pc' = holds pc)
    (hsame : (s'.store, s'.completed, s'.owner, s'.queues, s'.delivered) =
      (s.store, s.completed, s.owner, s.queues, s.delivered)) : Effect cfg g s pc a s' pc' := by
  simp only [Prod.mk.injEq] at hsame
  obtain ⟨hstore, hcompleted, howner, hqueues, hdelivered⟩ := hsame
  exact .quiet ⟨hstore, hcompleted, howner⟩ hpc hpc' (carried_same hqueues hdelivered hholds)

variable {msg : NatsMsg} {store : Store}

theorem marked_of_duplicate (h : s.store.beginConsume cfg msg = (false, store)) :
    msg.msgID ≠ "" ∧ markOf cfg s msg.msgID ≠ none := by
  unfold beginConsume at h
  split at h
  · cases h
  rename_i hid
  split at h
  · rename_i hmark
    refine ⟨hid, ?_⟩
    rw [markOf, hmark]
    nofun
  · cases h

theorem effect_step (hstep : step cfg g s pc a = some (s', pc')) : Effect cfg g s pc a s' pc' := by
  apply of_eq_some (P := fun r => Effect cfg g s pc a r.1 r.2) hstep
  fun_cases step cfg g s pc a with
  | case10 msg =>
    refine .quiet ⟨rfl, rfl, rfl⟩ rfl rfl ⟨fun _ _ h => .inl h, nofun, ?_⟩
    intro id hid
    rcases mem_cons.mp hid with rfl | hid
    · exact .inr ⟨msg, rfl, rfl⟩
    · exact .inl hid
  | case12 _ _ _ hpool => exact .refuse (by simp [refuses, hpool]) rfl
  | case14 _ _ _ hrefused | case16 _ _ _ hrefused => exact .refuse (if_pos hrefused) rfl
  | case18 worker =>
    refine .quiet ⟨rfl, rfl, rfl⟩ rfl rfl ⟨?_, ?_, fun _ h => .inl h⟩
    · intro w queued hqueued
      left
      rcases eq_or_ne w worker with rfl | hw
      · simp [hqueued]
      · simpa [hw] using hqueued
    · rintro _ ⟨⟩
      exact .inr (.inl ⟨worker, by simp⟩)
  | case19 _ _ _ hrefused | case26 _ _ _ hrefused => exact .refuse (if_neg hrefused) rfl
  | case22 worker _ _ _ hqueue =>
    refine .quiet ⟨rfl, rfl, rfl⟩ rfl rfl ⟨?_, nofun, fun _ h => .inl h⟩
    intro w queued hqueued
    rcases eq_or_ne w worker with rfl | hw
    · rw [hqueue] at hqueued
      rcases mem_cons.mp hqueued with rfl | hqueued
      · exact .inr rfl
      · exact .inl (by simpa using hqueued)
    · exact .inl (by simpa [hw] using hqueued)
  | case27 _ _ _ _ hbegin =>
    refine .quiet ⟨rfl, rfl, rfl⟩ rfl rfl ⟨fun _ _ h => .inl h, ?_, fun _ h => .inl h⟩
    rintro _ ⟨⟩
    exact .inr (.inr fun _ => (marked_of_duplicate hbegin).2)
  | case28 _ _ _ _ hbegin => exact .begin hbegin
  | case29 => exact .returned
  | case30 => exact .panicked
  | case31 => exact .finish
  | case32 => exact .append
  | case33 => exact .mark
  | case34 => exact .expireMark
  | case35 => exact .expireList
  | case1 | case4 | case11 | case21 | case24 | case36 => trivial
  | _ => exact quiet_same rfl rfl rfl rfl

structure Same (cfg : Config) (s s' : Bus) (id : String) : Prop where
  owner : s'.owner id = s.owner id
  completed : s'.completed.count id = s.completed.count id
  letters : ∀ key, letters s' id key = letters s id key
  mark : markOf cfg s' id = markOf cfg s id

variable {id : String}

theorem inboxKey_injective {id' : String} (h : inboxKey cfg id = inboxKey cfg id') : id = id' := by
  have hlist := congrArg String.toList h
  simp only [inboxKey, String.toList_append] at hlist
  exact String.toList_injective (append_cancel_left hlist)

variable {o : Option Nat}

theorem setOwner_self (hid : msg.msgID ≠ "") : setOwner s msg o msg.msgID = o := by
  simp [setOwner, hid]

theorem setOwner_of_ne (hid : id ≠ msg.msgID) : setOwner s msg o id = s.owner id := by
  unfold setOwner
  split
  · rfl
  · exact update_of_ne hid ..

theorem lists_setMark (store : Store) (msg : NatsMsg) (mark : Mark) :
    (store.setMark cfg msg mark).lists = store.lists := by
  unfold setMark
  split <;> rfl

theorem inbox_setMark_of_ne (store : Store) (mark : Mark) (hid : id ≠ msg.msgID) :
    (store.setMark cfg msg mark).inbox (inboxKey cfg id) = store.inbox (inboxKey cfg id) := by
  unfold setMark
  split
  · rfl
  · exact update_of_ne (fun h => hid (inboxKey_injective h)) ..

theorem inbox_setMark_self (store : Store) (mark : Mark) (hid : msg.msgID ≠ "") :
    (store.setMark cfg msg mark).inbox (inboxKey cfg msg.msgID) = some mark := by
  rw [setMark, if_neg hid]
  exact update_self ..

theorem lists_appendRaw (entry : DeadLetterEntry) (hroom : HasRoom cfg s msg) :
    (s.store.appendRaw cfg.maxDLQEntries (deadLetterKey cfg msg.toModule msg.msgName) entry).lists =
      update s.store.lists (deadLetterKey cfg msg.toModule msg.msgName)
        (s.store.lists (deadLetterKey cfg msg.toModule msg.msgName) ++ [entry]) := by
  unfold appendRaw
  dsimp only
  split_ifs with hlimit
  · have hlength := hroom hlimit
    rw [Nat.sub_eq_zero_of_le (by simp; omega), drop_zero]
  · rfl

/-- An id nobody is busy with has no trace, or an outcome. -/
def OkAt (cfg : Config) (s : Bus) (id : String) : Prop :=
  s.owner id = none →
    (markOf cfg s id = none → s.completed.count id = 0 ∧ NoLetter s id) ∧
      (markOf cfg s id ≠ none → Outcome s id)

def Ok (cfg : Config) (s : Bus) : Prop := ∀ id, id ≠ "" → OkAt cfg s id

def Knows (g : Nat) (s : Bus) : PC → Prop
  | .handle _ msg | .append _ msg _ => msg.msgID ≠ "" →
      s.owner msg.msgID = some g ∧ s.completed.count msg.msgID = 0 ∧ NoLetter s msg.msgID
  | .finish _ msg => msg.msgID ≠ "" →
      s.owner msg.msgID = some g ∧ s.completed.count msg.msgID = 1 ∧ NoLetter s msg.msgID
  | .mark _ msg => msg.msgID ≠ "" →
      s.owner msg.msgID = some g ∧ s.completed.count msg.msgID = 0 ∧ OneLetter s msg.msgID
  | _ => True

section Same

variable {id : String}

theorem Same.noLetter (h : Same cfg s s' id) : NoLetter s' id ↔ NoLetter s id := by
  simp only [NoLetter, h.letters]

theorem Same.oneLetter (h : Same cfg s s' id) : OneLetter s' id ↔ OneLetter s id := by
  simp only [OneLetter, h.letters]

theorem Same.okAt (h : Same cfg s s' id) (hok : OkAt cfg s id) : OkAt cfg s' id := by
  unfold OkAt Outcome at *
  rwa [h.owner, h.mark, h.completed, h.noLetter, h.oneLetter]

theorem knows_same (hsame : ∀ id, id ≠ "" → s.owner id = some g → Same cfg s s' id)
    (h : Knows g s pc) : Knows g s' pc := by
  have htransfer : ∀ {id : String} {n : Nat} {P : Bus → String → Prop},
      (∀ id, Same cfg s s' id → P s id → P s' id) →
      (id ≠ "" → s.owner id = some g ∧ s.completed.count id = n ∧ P s id) →
      id ≠ "" → s'.owner id = some g ∧ s'.completed.count id = n ∧ P s' id := by
    intro id n P hP h hid
    obtain ⟨howner, hcount, hletters⟩ := h hid
    have hs := hsame id hid howner
    exact ⟨hs.owner.trans howner, hs.completed.trans hcount, hP id hs hletters⟩
  cases pc with
  | handle | append | finish =>
    exact htransfer (fun _ hs => hs.noLetter.mpr) h
  | mark => exact htransfer (fun _ hs => hs.oneLetter.mpr) h
  | idle | dispatch | pick | cast | push | loop | lookup | begin | closing | ended => trivial

theorem Quiet.same (h : Quiet s s') : Same cfg s s' id where
  owner := by rw [h.owner]
  completed := by rw [h.completed]
  letters := by simp only [letters, h.store, implies_true]
  mark := by rw [markOf, markOf, h.store]

end Same

theorem knows_of_not_owns (h : owns pc = none) : Knows g s pc := by
  cases pc with
  | handle | append | finish | mark => cases h
  | idle | dispatch | pick | cast | push | loop | lookup | begin | closing | ended => trivial

theorem keeps_of_touch (hok : Ok cfg s) (m : String) (hsame : ∀ id, id ≠ m → Same cfg s s' id)
    (hfree : m ≠ "" → s.owner m = none ∨ s.owner m = some g)
    (hm : m ≠ "" → OkAt cfg s' m) (hown : Knows g s' pc') : Keeps (Ok cfg) Knows g s s' pc' := by
  refine ⟨?_, hown, ?_⟩
  · intro id hid
    by_cases hne : id = m
    · exact hne ▸ hm (hne ▸ hid)
    · exact (hsame id hne).okAt (hok id hid)
  intro g' p' hg
  apply knows_same
  intro id hid howner
  refine hsame id ?_
  rintro rfl
  rcases hfree hid with hnone | hmine
  · simp [hnone] at howner
  · rw [hmine] at howner
    exact hg (some.inj howner).symm

theorem markOf_begin (hid : msg.msgID ≠ "") (h : s.store.beginConsume cfg msg = (true, store)) :
    markOf cfg s msg.msgID = none ∧ store = s.store.setMark cfg msg .processing := by
  unfold beginConsume at h
  rw [if_neg hid] at h
  split at h
  · cases h
  · rename_i hmark
    cases h
    exact ⟨hmark, rfl⟩

theorem lists_begin (h : s.store.beginConsume cfg msg = (true, store)) :
    store.lists = s.store.lists := by
  unfold beginConsume at h
  split at h
  · cases h
    rfl
  split at h
  · cases h
  · cases h
    exact lists_setMark ..

theorem inbox_begin_of_ne (hid : id ≠ msg.msgID)
    (h : s.store.beginConsume cfg msg = (true, store)) :
    store.inbox (inboxKey cfg id) = s.store.inbox (inboxKey cfg id) := by
  by_cases hempty : msg.msgID = ""
  · rw [beginConsume, if_pos hempty] at h
    cases h
    rfl
  · rw [(markOf_begin hempty h).2]
    exact inbox_setMark_of_ne _ _ hid

theorem letters_append {queue : String} {entry : DeadLetterEntry}
    (hstore : store.lists = update s.store.lists queue (s.store.lists queue ++ [entry]))
    (id key : String) :
    letters { s with store } id key = if key = queue ∧ entry.msgID = id then
      letters s id key ++ [entry] else letters s id key := by
  unfold letters
  dsimp only
  rw [hstore]
  by_cases hkey : key = queue
  · subst hkey
    rw [update_self, filter_append]
    by_cases hid : entry.msgID = id <;> simp [hid]
  · rw [update_of_ne hkey, if_neg fun h => hkey h.1]

theorem okAt_of_owner (h : s.owner id = some g) : OkAt cfg s id :=
  fun hnone => nomatch h.symm.trans hnone

theorem keeps_effect (hok : Ok cfg s) (hknows : Knows g s pc) (horderly : Orderly cfg s pc a)
    (heffect : Effect cfg g s pc a s' pc') : Keeps (Ok cfg) Knows g s s' pc' := by
  cases heffect with
  | quiet hquiet _ hpc' =>
    refine keeps_of_touch hok "" (fun _ _ => hquiet.same) ?_ ?_ (knows_of_not_owns hpc')
    · exact fun h => absurd rfl h
    · exact fun h => absurd rfl h
  | @refuse _ _ _ msg _ hrefuses =>
    have hfree := horderly.refused msg hrefuses
    refine keeps_of_touch hok msg.msgID ?_ (fun hid => .inl (hfree hid).2) ?_ ?_
    · intro id hid
      exact ⟨setOwner_of_ne hid, rfl, fun _ => rfl, rfl⟩
    · intro hid hnone
      have hself : setOwner s msg (some g) msg.msgID = some g := setOwner_self hid
      exact nomatch hself.symm.trans hnone
    · intro hid
      obtain ⟨hmark, howner⟩ := hfree hid
      obtain ⟨hcount, hletters⟩ := (hok msg.msgID hid howner).1 hmark
      exact ⟨setOwner_self hid, hcount, hletters⟩
  | @begin _ worker msg _ hbegin =>
    have hfree : msg.msgID ≠ "" → s.owner msg.msgID = none := fun hid =>
      horderly.begins worker msg rfl (markOf_begin hid hbegin).1
    refine keeps_of_touch hok msg.msgID ?_ (fun hid => .inl (hfree hid)) ?_ ?_
    · intro id hid
      refine ⟨setOwner_of_ne hid, rfl, fun key => ?_, inbox_begin_of_ne hid hbegin⟩
      simp only [letters, lists_begin hbegin]
    · exact fun hid => okAt_of_owner (setOwner_self hid)
    · intro hid
      obtain ⟨hcount, hletters⟩ := (hok msg.msgID hid (hfree hid)).1 (markOf_begin hid hbegin).1
      refine ⟨setOwner_self hid, hcount, fun key => ?_⟩
      simp only [letters, lists_begin hbegin]
      exact hletters key
  | @returned _ _ msg =>
    refine keeps_of_touch hok msg.msgID ?_ (fun hid => .inr (hknows hid).1) ?_ ?_
    · intro id hid
      exact ⟨rfl, count_cons_of_ne hid.symm, fun _ => rfl, rfl⟩
    · exact fun hid => okAt_of_owner (hknows hid).1
    · intro hid
      obtain ⟨howner, hcount, hletters⟩ := hknows hid
      refine ⟨howner, ?_, hletters⟩
      rw [count_cons_self, hcount]
  | panicked => exact ⟨hok, hknows, fun _ _ _ => id⟩
  | @finish _ _ msg =>
    refine keeps_of_touch hok msg.msgID ?_ (fun hid => .inr (hknows hid).1) ?_ trivial
    · intro id hid
      refine ⟨setOwner_of_ne hid, rfl, fun key => ?_, ?_⟩
      · simp only [letters, finishConsume, lists_setMark]
      · exact inbox_setMark_of_ne _ _ hid
    intro hid _
    obtain ⟨howner, hcount, hletters⟩ := hknows hid
    refine ⟨fun hnone => absurd hnone ?_, fun _ => .inl ⟨hcount, fun key => ?_⟩⟩
    · simp [markOf, finishConsume, inbox_setMark_self _ _ hid]
    · simp only [letters, finishConsume, lists_setMark]
      exact hletters key
  | @append worker msg reason now =>
    have hlists := letters_append (lists_appendRaw (entryOf cfg msg reason now)
      (horderly.room worker msg reason rfl))
    refine keeps_of_touch hok msg.msgID ?_ (fun hid => .inr (hknows hid).1) ?_ ?_
    · intro id hid
      refine ⟨rfl, rfl, fun key => ?_, rfl⟩
      rw [hlists, if_neg fun h => hid h.2.symm]
    · exact fun hid => okAt_of_owner (hknows hid).1
    · intro hid
      obtain ⟨howner, hcount, hletters⟩ := hknows hid
      refine ⟨howner, hcount, deadLetterKey cfg msg.toModule msg.msgName,
        entryOf cfg msg reason now, ?_, fun key hkey => ?_⟩
      · rw [hlists, if_pos ⟨rfl, rfl⟩, hletters]
        rfl
      · rw [hlists, if_neg fun h => hkey h.1]
        exact hletters key
  | @mark _ worker msg =>
    refine keeps_of_touch hok msg.msgID ?_ (fun hid => .inr (hknows hid).1) ?_ ?_
    · intro id hid
      refine ⟨setOwner_of_ne hid, rfl, fun key => ?_, ?_⟩
      · simp only [letters, lists_setMark]
      · exact inbox_setMark_of_ne _ _ hid
    · intro hid _
      obtain ⟨howner, hcount, hletters⟩ := hknows hid
      refine ⟨fun hnone => absurd hnone ?_, fun _ => .inr ⟨hcount, ?_⟩⟩
      · simp [markOf, inbox_setMark_self _ _ hid]
      · simp only [OneLetter, letters, lists_setMark]
        exact hletters
    · cases worker <;> trivial
  | expireMark => exact absurd rfl (horderly.mark _)
  | expireList => exact absurd rfl (horderly.list _)

theorem markOf_effect (horderly : Orderly cfg s pc a) (heffect : Effect cfg g s pc a s' pc')
    (h : markOf cfg s id ≠ none) : markOf cfg s' id ≠ none := by
  have hset : ∀ msg mark, (s.store.setMark cfg msg mark).inbox (inboxKey cfg id) ≠ none := by
    intro msg mark
    rcases eq_or_ne id msg.msgID with rfl | hid
    · by_cases hempty : msg.msgID = ""
      · rwa [setMark, if_pos hempty]
      · rw [inbox_setMark_self _ _ hempty]
        nofun
    · rwa [inbox_setMark_of_ne _ _ hid]
  cases heffect with
  | quiet hquiet => rwa [hquiet.same.mark]
  | refuse | returned | panicked | append => exact h
  | @begin _ _ msg _ hbegin =>
    by_cases hempty : msg.msgID = ""
    · rw [beginConsume, if_pos hempty] at hbegin
      cases hbegin
      exact h
    · rw [(markOf_begin hempty hbegin).2]
      exact hset msg _
  | finish | mark => exact hset _ _
  | expireMark => exact absurd rfl (horderly.mark _)
  | expireList => exact absurd rfl (horderly.list _)

theorem carried_effect (horderly : Orderly cfg s pc a)
    (heffect : Effect cfg g s pc a s' pc') : Carried cfg s pc s' pc' := by
  have hmarked : ∀ {t : Bus} {msg : NatsMsg} {mark : Mark} {pc' : PC},
      t.store = s.store.setMark cfg msg mark → t.queues = s.queues → t.delivered = s.delivered →
      holds pc = some msg → Carried cfg s pc t pc' := by
    intro t msg mark pc' hstore hqueues hdelivered hholds
    refine ⟨fun _ _ h => .inl (hqueues ▸ h), ?_, fun _ h => .inl (hdelivered ▸ h)⟩
    rintro held hheld
    obtain rfl := some.inj (hholds.symm.trans hheld)
    refine .inr (.inr fun hid => ?_)
    rw [markOf, hstore, inbox_setMark_self _ _ hid]
    nofun
  cases heffect with
  | quiet _ _ _ hcarried => exact hcarried
  | refuse _ hholds => exact carried_same rfl rfl hholds.symm
  | begin | returned | panicked | append => exact carried_same rfl rfl rfl
  | finish | mark => exact hmarked rfl rfl rfl rfl
  | expireMark => exact absurd rfl (horderly.mark _)
  | expireList => exact absurd rfl (horderly.list _)

/-- A delivered id has a mark, or a delivery of it is in a queue or in hand. -/
def Tracked (cfg : Config) (s : Threads Bus PC) : Prop :=
  ∀ id, id ≠ "" → id ∈ s.shared.delivered → markOf cfg s.shared id ≠ none ∨
    ∃ msg, msg.msgID = id ∧
      ((∃ worker, msg ∈ s.shared.queues worker) ∨ ∃ g, PC.holds (s.pc g) = some msg)

theorem tracked_step {s} (htracked : Tracked cfg s)
    (hmark : ∀ id, markOf cfg s.shared id ≠ none → markOf cfg s' id ≠ none)
    (hcarried : Carried cfg s.shared (s.pc g) s' pc') : Tracked cfg ⟨s', update s.pc g pc'⟩ := by
  intro id hid hdelivered
  have hown : ∀ msg, holds pc' = some msg → ∃ g', holds (update s.pc g pc' g') = some msg := by
    intro msg hholds
    exact ⟨g, by rwa [update_self]⟩
  rcases hcarried.delivered id hdelivered with hold | ⟨msg, hholds, rfl⟩
  · rcases htracked id hid hold with hmarked | ⟨msg, rfl, ⟨worker, hqueued⟩ | ⟨g', hholds⟩⟩
    · exact .inl (hmark id hmarked)
    · refine .inr ⟨msg, rfl, ?_⟩
      exact (hcarried.queued worker msg hqueued).imp (fun h => ⟨worker, h⟩) (hown msg)
    · rcases eq_or_ne g' g with rfl | hg
      · rcases hcarried.held msg hholds with hkept | hqueued | hmarked
        · exact .inr ⟨msg, rfl, .inr (hown msg hkept)⟩
        · exact .inr ⟨msg, rfl, .inl hqueued⟩
        · exact .inl (hmarked hid)
      · refine .inr ⟨msg, rfl, .inr ⟨g', ?_⟩⟩
        show holds (update s.pc g pc' g') = some msg
        rwa [update_of_ne hg]
  · exact .inr ⟨msg, rfl, .inr (hown msg hholds)⟩

theorem holds_of_reach {s} (h : Reach (next cfg) Initial (orderly cfg) s) :
    Holds (Ok cfg) Knows s := by
  refine Holds.of_reach h ?_ ?_
  · rintro _ rfl
    refine ⟨fun id _ _ => ⟨fun _ => ⟨rfl, fun _ => rfl⟩, fun hmark => ?_⟩, fun _ => trivial⟩
    exact absurd rfl hmark
  · intro s g a s' pc' hholds horderly hstep
    exact keeps_effect hholds.shared (hholds.knows g) horderly (effect_step hstep)

theorem tracked_of_reach {s} (h : Reach (next cfg) Initial (orderly cfg) s) : Tracked cfg s := by
  induction h with
  | start hinit =>
    obtain rfl := hinit
    exact fun _ _ hdelivered => nomatch hdelivered
  | @step s s' l _ horderly hnext ih =>
    obtain ⟨g, a⟩ := l
    obtain ⟨w, pc', hstep, rfl⟩ := next_eq_some hnext
    have heffect := effect_step hstep
    exact tracked_step ih (fun _ => markOf_effect horderly heffect)
      (carried_effect horderly heffect)

/-- The owner of an id has a message of that id. -/
def Owns (g : Nat) (s : Bus) (pc : PC) : Prop :=
  ∀ id, id ≠ "" → s.owner id = some g → ∃ msg, PC.owns pc = some msg ∧ msg.msgID = id

theorem owner_of_setOwner {g' : Nat} (h : setOwner s msg o id = some g') :
    s.owner id = some g' ∨ msg.msgID = id ∧ o = some g' := by
  unfold setOwner at h
  split at h
  · exact .inl h
  rcases eq_or_ne id msg.msgID with rfl | hid
  · rw [update_self] at h
    exact .inr ⟨rfl, h⟩
  · rw [update_of_ne hid] at h
    exact .inl h

theorem not_owns_of_refuses (h : refuses cfg s pc = some msg) : owns pc = none := by
  cases pc with
  | handle | append | finish | mark => cases h
  | idle | dispatch | pick | cast | push | loop | lookup | begin | closing | ended => rfl

theorem keeps_owns (howns : Owns g s pc) (horderly : Orderly cfg s pc a)
    (heffect : Effect cfg g s pc a s' pc') : Keeps (fun _ => True) Owns g s s' pc' := by
  have hnothing : owns pc = none → ∀ id, id ≠ "" → s.owner id ≠ some g := by
    intro hpc id hid howner
    obtain ⟨msg, hmsg, -⟩ := howns id hid howner
    exact nomatch hpc.symm.trans hmsg
  have hset : ∀ {t : Bus} {msg : NatsMsg} {o : Option Nat} {p : PC},
      t.owner = setOwner s msg o → (∀ g', o = some g' → g' = g) → Owns g t p →
      Keeps (fun _ => True) Owns g s t p := by
    intro t msg o p howner ho hown
    refine ⟨trivial, hown, fun g' p' hg hknows id hid hset => hknows id hid ?_⟩
    rw [howner] at hset
    rcases owner_of_setOwner hset with hold | ⟨-, hself⟩
    · exact hold
    · exact absurd (ho g' hself) hg
  have hmore : ∀ {t : Bus} {msg : NatsMsg} {p : PC}, owns pc = none → owns p = some msg →
      t.owner = setOwner s msg (some g) → Keeps (fun _ => True) Owns g s t p := by
    intro t msg p hpc hp howner
    refine hset howner (fun g' hself => (some.inj hself).symm) fun id hid hmine => ?_
    rw [howner] at hmine
    rcases owner_of_setOwner hmine with hold | ⟨hmsg, -⟩
    · exact absurd hold (hnothing hpc id hid)
    · exact ⟨msg, hp, hmsg⟩
  have hless : ∀ {t : Bus} {msg : NatsMsg} {p : PC}, owns pc = some msg →
      t.owner = setOwner s msg none → Keeps (fun _ => True) Owns g s t p := by
    intro t msg p hpc howner
    refine hset howner nofun fun id hid hmine => ?_
    rw [howner] at hmine
    rcases owner_of_setOwner hmine with hold | ⟨-, hself⟩
    · obtain ⟨owned, howned, rfl⟩ := howns id hid hold
      obtain rfl := some.inj (hpc.symm.trans howned)
      rw [setOwner_self hid] at hmine
      cases hmine
    · cases hself
  cases heffect with
  | quiet hquiet hpc =>
    refine ⟨trivial, fun id hid hset => ?_, fun g' p' hg hknows id hid hset => hknows id hid ?_⟩
    · exact absurd (hquiet.owner ▸ hset) (hnothing hpc id hid)
    · exact hquiet.owner ▸ hset
  | refuse hrefuses => exact hmore (not_owns_of_refuses hrefuses) rfl rfl
  | begin => exact hmore rfl rfl rfl
  | returned | panicked | append => exact ⟨trivial, howns, fun _ _ _ => id⟩
  | finish | mark => exact hless rfl rfl
  | expireMark => exact absurd rfl (horderly.mark _)
  | expireList => exact absurd rfl (horderly.list _)

theorem owns_of_reach {s} (h : Reach (next cfg) Initial (orderly cfg) s) :
    Holds (fun _ => True) Owns s := by
  refine Holds.of_reach h ?_ ?_
  · rintro _ rfl
    exact ⟨trivial, fun _ _ _ howner => nomatch howner⟩
  · intro s g a s' pc' hholds horderly hstep
    exact keeps_owns (hholds.knows g) horderly (effect_step hstep)

theorem holds_of_owns (h : owns pc = some msg) : holds pc = some msg := by
  cases pc with
  | handle | append | finish | mark => exact h
  | idle | dispatch | pick | cast | push | loop | lookup | begin | closing | ended => cases h

theorem owner_of_processed {s} (hid : id ≠ "") (h : Reach (next cfg) Initial (orderly cfg) s)
    (hprocessed : Processed s) : s.shared.owner id = none := by
  cases howner : s.shared.owner id with
  | none => rfl
  | some g =>
    obtain ⟨msg, howns, -⟩ := (owns_of_reach h).knows g id hid howner
    exact nomatch (hprocessed.1 g).symm.trans (holds_of_owns howns)

/-- When all deliveries are processed, each delivered id has exactly one outcome. -/
theorem reliable_outcome (cfg : Config) {s : Threads Bus PC}
    (h : Reach (next cfg) Initial (orderly cfg) s) (hprocessed : Processed s) :
    ∀ id ∈ s.shared.delivered, id ≠ "" → Outcome s.shared id := by
  intro id hdelivered hid
  have hok := (holds_of_reach h).shared id hid (owner_of_processed hid h hprocessed)
  rcases tracked_of_reach h id hid hdelivered with hmark | ⟨msg, -, ⟨worker, hqueued⟩ | ⟨g, hholds⟩⟩
  · exact hok.2 hmark
  · rw [hprocessed.2 worker] at hqueued
    cases hqueued
  · rw [hprocessed.1 g] at hholds
    cases hholds

section Example

def one : Config where
  sid := 1
  svcType := "game"
  workerNum := 1
  queueCap := 16
  space := "cube:bus"
  maxDLQEntries := 10000

def changed : NatsMsg := ⟨2, 1, "mail", "Changed", [], 0, "m1", 1, 0⟩

def moved : NatsMsg := ⟨2, 1, "map", "Move", [], 0, "m2", 1, 0⟩

variable {worker : Nat} {l : Nat × Act}

theorem queues_step (hstep : step cfg g s pc a = some (s', pc')) (hempty : s.queues worker = [])
    (hpush : ∀ msg, pc ≠ .push worker msg) :
    s'.queues worker = [] := by
  unfold step at hstep
  repeat' split at hstep
  all_goals try cases hstep
  all_goals try exact hempty
  · rename_i w msg _ _
    have hne : worker ≠ w := fun h => hpush msg (h ▸ rfl)
    simpa [hne] using hempty
  rename_i w _ _ _ _ hqueue
  have hne : worker ≠ w := by
    rintro rfl
    simp [hempty] at hqueue
  simpa [hne] using hempty

def small (s : Threads Bus PC) (l : Nat × Act) : Prop :=
  l.1 < 3 ∧ ∀ worker msg, s.pc l.1 = .push worker msg → worker = 0

def smallTest (s : Threads Bus PC) (l : Nat × Act) : Bool :=
  decide (l.1 < 3) &&
    match s.pc l.1 with
    | .push worker _ => worker == 0
    | _ => true

theorem small_of_test {s} (h : smallTest s l = true) : small s l := by
  simp only [smallTest, Bool.and_eq_true, decide_eq_true_eq] at h
  refine ⟨h.1, fun worker msg hpc => ?_⟩
  have hzero := h.2
  rw [hpc] at hzero
  exact beq_iff_eq.mp hzero

theorem queues_of_small {s} (h : Reach (next cfg) Initial small s) (hworker : worker ≠ 0) :
    s.shared.queues worker = [] := by
  induction h with
  | start hinit =>
    obtain rfl := hinit
    rfl
  | @step s s' l _ hsmall hnext ih =>
    obtain ⟨g, a⟩ := l
    obtain ⟨t, pc', hstep, rfl⟩ := next_eq_some hnext
    exact queues_step hstep ih fun msg hpc => hworker (hsmall.2 worker msg hpc)

def rests (s : Threads Bus PC) : Bool :=
  ((List.range 3).all fun g => (PC.holds (s.pc g)).isNone) && (s.shared.queues 0).isEmpty

theorem processed_of_small {s} (h : Reach (next cfg) Initial small s) (hrests : rests s = true) :
    Processed s := by
  obtain ⟨hpcs, hqueue⟩ := Bool.and_eq_true_iff.mp hrests
  have hidle : ∀ g, 3 ≤ g → s.pc g = .idle := by
    refine pc_of_bounded h ?_ fun _ _ hsmall => hsmall.1
    rintro _ rfl g -
    rfl
  refine ⟨fun g => ?_, fun worker => ?_⟩
  · rcases Nat.lt_or_ge g 3 with hg | hg
    · exact isNone_iff_eq_none.mp (all_eq_true.mp hpcs g (mem_range.mpr hg))
    · rw [hidle g hg]
      rfl
  · by_cases hworker : worker = 0
    · exact hworker ▸ isEmpty_iff.mp hqueue
    · exact queues_of_small h hworker

def orderlyTest (s : Threads Bus PC) (l : Nat × Act) : Bool :=
  ((refuses one s.shared (s.pc l.1)).all fun msg =>
      decide (markOf one s.shared msg.msgID = none ∧ s.shared.owner msg.msgID = none)) &&
    (match s.pc l.1 with
    | .begin _ msg =>
      decide (markOf one s.shared msg.msgID = none → s.shared.owner msg.msgID = none)
    | .append _ msg _ =>
      decide ((s.shared.store.lists (deadLetterKey one msg.toModule msg.msgName)).length < 10000)
    | _ => true) &&
    match l.2 with
    | .expireMark _ | .expireList _ => false
    | _ => true

theorem orderly_of_test {s} (h : orderlyTest s l = true) : orderly one s l := by
  simp only [orderlyTest, Bool.and_eq_true] at h
  obtain ⟨⟨hrefused, hpc⟩, hact⟩ := h
  refine ⟨?_, ?_, ?_, ?_, ?_⟩
  · intro msg hmsg _
    rw [hmsg] at hrefused
    exact of_decide_eq_true hrefused
  · intro worker msg hbegin
    rw [hbegin] at hpc
    exact of_decide_eq_true hpc
  · intro worker msg reason happend _
    rw [happend] at hpc
    exact of_decide_eq_true hpc
  all_goals
    intro key hkey
    rw [hkey] at hact
    cases hact

/-- Both guards, for a run all of whose goroutines and workers are known. -/
def watched (s : Threads Bus PC) (l : Nat × Act) : Prop := orderly one s l ∧ small s l

/-- Goroutine 1 delivers a message, which goroutine 2 takes out of the queue. -/
def delivery (msg : NatsMsg) : List (Nat × Act) :=
  [(1, .deliver msg), (1, .run 0), (1, .run 0), (1, .run 0), (1, .run 0), (2, .run 0), (2, .run 0)]

theorem reliable_outcome_two :
    ∃ s, Reach (next one) Initial (orderly one) s ∧ Processed s ∧
      s.shared.delivered = ["m2", "m1", "m1"] ∧ s.shared.completed = ["m1"] ∧
      ∀ id ∈ s.shared.delivered, id ≠ "" → Outcome s.shared id := by
  obtain ⟨s, hreach, hrests, hdelivered, hcompleted⟩ : ∃ s, Reach (next one) Initial watched s ∧
      rests s = true ∧ s.shared.delivered = ["m2", "m1", "m1"] ∧ s.shared.completed = ["m1"] :=
    exists_of_run rfl (fun s l => orderlyTest s l && smallTest s l)
      ([(0, .start), (0, .handle "mail" "Changed"), (2, .loop 0)] ++
        delivery changed ++ [(2, .run 0), (2, .returned), (2, .run 0)] ++
        delivery changed ++ [(2, .run 0)] ++ delivery moved ++ [(2, .run 7), (2, .run 7)])
      (by
        intro s l _ htest
        obtain ⟨horderly, hsmall⟩ := Bool.and_eq_true_iff.mp htest
        exact ⟨orderly_of_test horderly, small_of_test hsmall⟩)
      (by decide +kernel)
  have horderly := hreach.weaken fun _ _ hwatched => hwatched.1
  have hprocessed := processed_of_small (hreach.weaken fun _ _ hwatched => hwatched.2) hrests
  exact ⟨s, horderly, hprocessed, hdelivered, hcompleted, reliable_outcome one horderly hprocessed⟩

/-- The bus stops after a message was handled, and its second delivery becomes a dead letter. -/
theorem handled_and_dead :
    ∃ s, Reach (next one) Initial anyStep s ∧ Processed s ∧ "m1" ∈ s.shared.delivered ∧
      ¬ Outcome s.shared "m1" := by
  obtain ⟨s, hreach, hrests, hdelivered, hcompleted, hletters⟩ : ∃ s,
      Reach (next one) Initial small s ∧ rests s = true ∧ s.shared.delivered = ["m1", "m1"] ∧
      s.shared.completed = ["m1"] ∧
      letters s.shared "m1" (deadLetterKey one "mail" "Changed") ≠ [] :=
    exists_of_run rfl smallTest
      ([(0, .start), (0, .handle "mail" "Changed"), (2, .loop 0)] ++
        delivery changed ++ [(2, .run 0), (2, .returned), (2, .run 0), (1, .deliver changed),
          (0, .stop), (0, .run 0), (0, .run 0), (1, .run 0), (1, .run 0), (1, .run 0)])
      (fun _ _ _ htest => small_of_test htest) (by decide +kernel)
  refine ⟨s, hreach.any, processed_of_small hreach hrests, by simp [hdelivered], ?_⟩
  rintro (⟨-, hnone⟩ | ⟨hcount, -⟩)
  · exact hletters (hnone _)
  · simp [hcompleted] at hcount

end Example

end CubeCore.ReliableOutcome
