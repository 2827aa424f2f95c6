import CubeCore.BatchOwnership

namespace CubeCore.OperationAccounting

open SaveItems JournalQueue BatchDedup FlusherSystem FlusherMoves BatchOwnership Function List

variable {V : Type}

/-- The kind of an operation, its target and its admission numbers. -/
abbrev OpTest := Bool → Target → List Nat → Prop

variable {Q : OpTest}

def Matches (Q : OpTest) (ops : List (SaveItem V)) : Prop :=
  ∃ x ∈ ops, Q x.isRemove x.target x.stamps

def Done (Q : OpTest) (s : State V) : Prop :=
  (∃ w, Saved s w ∧ Q false w.target w.stamps) ∨ ∃ e ∈ s.removed, Q true e.1 e.2

/-- Some operation that meets `Q` waits in the journal, is owned or is done. -/
def Kept (Q : OpTest) (s : State V) : Prop :=
  Matches Q (opsOf s.journal.entries) ∨ (∃ p, Matches Q (ownedOps (s.procs p))) ∨ Done Q s

theorem Matches.subset (h : Matches Q xs) (hsub : xs ⊆ ys) : Matches Q ys := by
  obtain ⟨x, hx, hq⟩ := h
  exact ⟨x, hsub hx, hq⟩

theorem matches_append :
    Matches Q (xs ++ ys) ↔ Matches Q xs ∨ Matches Q ys := by
  simp only [Matches, mem_append, or_and_right, exists_or]

theorem not_matches_nil : ¬ Matches Q ([] : List (SaveItem V)) := by
  simp [Matches]

variable {s' : State V}

variable {s : State V}

theorem Done.mono (hhist : History s s') (h : Done Q s) : Done Q s' := by
  rcases h with ⟨w, hw, hq⟩ | ⟨e, he, hq⟩
  · exact .inl ⟨w, hw.mono hhist, hq⟩
  · exact .inr ⟨e, hhist.removed he, hq⟩

theorem done_of_saved (hsaves : ∀ w ∈ saves, w.isRemove = false ∧ Saved s w) (h : Matches Q saves) :
    Done Q s := by
  obtain ⟨w, hw, hq⟩ := h
  obtain ⟨hsave, hsaved⟩ := hsaves w hw
  rw [hsave] at hq
  exact .inl ⟨w, hsaved, hq⟩

theorem done_of_removed (hremoves : ∀ group ∈ removes, Removed s group)
    (h : Matches Q (removeOps removes : List (SaveItem V))) : Done Q s := by
  obtain ⟨x, hx, hq⟩ := h
  obtain ⟨group, hgroup, r, hr, rfl⟩ := mem_removeOps.mp hx
  exact .inr ⟨_, hremoves group hgroup r hr, hq⟩

theorem Kept.update (h : Kept Q s) (hhist : History s s') (hprocs : s'.procs = update s.procs p pc)
    (hjournal : Matches Q (opsOf s.journal.entries) →
      Matches Q (opsOf s'.journal.entries) ∨ Matches Q (ownedOps pc))
    (howned : Matches Q (ownedOps (s.procs p)) →
      Matches Q (ownedOps pc) ∨ Matches Q (opsOf s'.journal.entries) ∨ Done Q s') : Kept Q s' := by
  have hpc : Matches Q (ownedOps pc) → Kept Q s' := by
    intro hm
    refine .inr (.inl ⟨p, ?_⟩)
    rwa [hprocs, update_self]
  rcases h with hj | ⟨q, hq⟩ | hdone
  · rcases hjournal hj with hj' | hm
    · exact .inl hj'
    · exact hpc hm
  · rcases eq_or_ne q p with rfl | hne
    · rcases howned hq with hm | hj | hdone
      · exact hpc hm
      · exact .inl hj
      · exact .inr (.inr hdone)
    · refine .inr (.inl ⟨q, ?_⟩)
      rwa [hprocs, update_of_ne hne]
  · exact .inr (.inr (hdone.mono hhist))

/-- The call wrote its whole chunk or is simply repeated. -/
def clean : SaveOutcome → Prop
  | .error cancelled => cancelled = false
  | .mismatch _ => False
  | .results fails => true ∉ fails

theorem not_clean_of_dropSaves {f : List Bool → Backend V}
    (h : (outcome = .error true ∧ b = b') ∨ ∃ fails, outcome = .mismatch fails ∧ b = f fails) :
    ¬ clean outcome := by
  rcases h with ⟨rfl, -⟩ | ⟨fails, rfl, -⟩
  · simp [clean]
  · exact fun hclean => hclean

/-- A step at which no operation that meets `Q` can get lost. -/
structure Lossless (cfg : Config V) (Q : OpTest) (s : State V) (a : Label V) : Prop where
  take : ∀ p, a = .take p →
    Matches Q (opsOf (s.journal.tryPopBatch cfg.batchSize).1) →
    Matches Q ((dedup (s.journal.tryPopBatch cfg.batchSize).1).saves ++
      removeOps (dedup (s.journal.tryPopBatch cfg.batchSize).1).removes)
  save : ∀ p outcome batch todo, a = .save p outcome →
    s.procs p = .saving batch todo →
    clean outcome ∨ ¬ Matches Q (removeOps batch.removes : List (SaveItem V))
  requeue : ∀ p order, a = .requeue p order → s.journal.closed = false
  drain : a = .rollbackPending → s.procs .stop ≠ .rollbackPending

variable (batch : Batch V)

theorem ownedOps_continueRemoves (todo : List (RemoveKey × List RemoveId)) :
    ownedOps (continueRemoves batch todo) = if todo = [] then [] else removeOps batch.removes := by
  simp only [continueRemoves]
  split <;> rfl

theorem ownedOps_continueSaves (todo : List (SaveItem V)) :
    ownedOps (continueSaves batch todo) =
      (if todo = [] then [] else batch.saves) ++ removeOps batch.removes := by
  cases todo with
  | nil =>
    simp only [continueSaves, ownedOps_continueRemoves, if_true, nil_append]
    split_ifs with hnil
    · rw [hnil]
      rfl
    · rfl
  | cons => simp [continueSaves, ownedOps]

theorem ownedOps_afterSaves (todo : List (SaveItem V)) (failed : Bool) (acks : List (SaveItem V)) :
    ownedOps (afterSaves batch todo failed) = ownedOps (.ackSaves batch todo failed acks) := by
  cases failed with
  | true => simp [afterSaves, ownedOps]
  | false => exact ownedOps_continueSaves batch todo

variable {cfg : Config V}

theorem kept_chunk {batch : Batch V} (acks : List (SaveItem V))
    (hdone : ∀ w ∈ batch.saves, w.isRemove = false ∧ (failed = false → w ∈ rest ∨ Saved s' w))
    (hremoves : ¬ Matches Q (removeOps batch.removes : List (SaveItem V)) ∨ failed = false)
    (h : Matches Q (ownedOps (.saving batch todo))) :
    Matches Q (ownedOps (.ackSaves batch rest failed acks)) ∨ Done Q s' := by
  simp only [ownedOps, matches_append] at h ⊢
  cases failed with
  | true =>
    rcases h with hsaves | hrem
    · exact .inl hsaves
    · rcases hremoves with hnone | hfalse
      · exact absurd hrem hnone
      · cases hfalse
  | false =>
    simp only [Bool.false_eq_true, if_false, matches_append]
    rcases h with hsaves | hrem
    · split_ifs with hnil
      · refine .inr (done_of_saved (fun w hw => ⟨(hdone w hw).1, ?_⟩) hsaves)
        rcases (hdone w hw).2 rfl with htodo | hsaved
        · rw [hnil] at htodo
          simp at htodo
        · exact hsaved
      · exact .inl (.inl hsaves)
    · exact .inl (.inr hrem)

theorem kept_removes {batch : Batch V} (hdone : ∀ g ∈ batch.removes, g ∈ todo ∨ Removed s g)
    (h : Matches Q (removeOps batch.removes : List (SaveItem V))) :
    Matches Q (ownedOps (continueRemoves batch todo)) ∨ Done Q s := by
  rw [ownedOps_continueRemoves]
  split_ifs with hnil
  · refine .inr (done_of_removed (fun g hg => ?_) h)
    rcases hdone g hg with htodo | hremoved
    · rw [hnil] at htodo
      simp at htodo
    · exact hremoved
  · exact .inl h

variable {a : Label V}

section

variable (hmove : Move cfg s a s')
include hmove

theorem kept_move (hstaged : Staged s) (hloss : Lossless cfg Q s a) (h : Kept Q s) : Kept Q s' := by
  have hhist := history_move hmove
  have idle : ∀ {p : Pid}, busy (s.procs p) = false → ¬ Matches Q (ownedOps (s.procs p)) := by
    intro p hbusy
    rw [ownedOps_of_not_busy hbusy]
    exact not_matches_nil
  cases hmove with
  | still hwork hprocs =>
    simp only [Kept, hwork.entries, hprocs]
    exact h.imp_right (Or.imp_right (Done.mono hhist))
  | quiet _ _ hwork hprocs hbusy =>
    refine h.update hhist hprocs (fun hj => ?_) fun ho => absurd ho (idle hbusy)
    rw [hwork.entries]
    exact .inl hj
  | idleStop =>
    refine h.imp (fun hj => ?_) (Or.imp_right (Done.mono hhist))
    split <;> exact hj
  | wait p hpc | receive p hpc =>
    exact h.update hhist rfl .inl fun ho => absurd ho (idle (by rw [hpc]; rfl))
  | notify _ _ hpc | finish _ _ hpc =>
    refine h.update hhist rfl .inl fun ho => ?_
    rw [hpc] at ho
    exact absurd ho not_matches_nil
  | push _ _ hpush =>
    refine h.imp (fun hj => ?_) (Or.imp_right (Done.mono hhist))
    simp only [opsOf, Journal.opsOf_push hpush]
    exact matches_append.mpr (.inl hj)
  | take p hcan =>
    refine h.update hhist rfl (fun hj => ?_) fun ho => absurd ho (idle (canTake_idle hcan).1)
    rw [opsOf_tryPopBatch s.journal cfg.batchSize, matches_append] at hj
    rcases hj with hbatch | hrest
    · refine .inr ?_
      have hm := hloss.take p rfl hbatch
      rw [ownedOps_continueSaves]
      split_ifs with hnil
      · rwa [hnil] at hm
      · exact hm
    · exact .inl hrest
  | save p batch todo _ _ reply _ hpc hreply hnew =>
    have hstage := hstaged p
    rw [hpc] at hstage
    refine h.update hhist rfl .inl fun ho => ?_
    rw [hpc] at ho
    have hdone := chunk_done hstage hhist hreply (subset_append_right _ _)
    have hkept := kept_chunk (acked reply.2) hdone (by
      rcases hloss.save p _ batch todo rfl hpc with hfails | hnone
      · exact .inr (by simp [hreply, flushChunk_rejected cfg s.backend _ hfails])
      · exact .inl hnone) ho
    rcases hnew with rfl | rfl
    · rw [ownedOps_afterSaves]
      exact hkept.imp_right .inr
    · exact hkept.imp_right .inr
  | dropSaves p batch todo _ _ _ hpc hout =>
    refine h.update hhist rfl .inl fun ho => ?_
    rw [hpc, ownedOps, matches_append] at ho
    rcases ho with hsaves | hrem
    · exact .inl (by simpa [ownedOps] using hsaves)
    · rcases hloss.save p _ batch todo rfl hpc with hclean | hnone
      · exact absurd hclean (not_clean_of_dropSaves hout)
      · exact absurd hrem hnone
  | ackSaves _ batch todo failed acks _ hpc =>
    refine h.update hhist rfl .inl fun ho => .inl ?_
    rw [hpc] at ho
    rwa [ownedOps_afterSaves batch todo failed acks]
  | remove p batch todo i group pc hpc hgroup hnew =>
    have hstage := hstaged p
    rw [hpc] at hstage
    refine h.update hhist rfl .inl fun ho => ?_
    rw [hpc] at ho
    rcases hnew with rfl | rfl
    · exact (kept_removes (group_done hstage hhist hgroup (removed_of_append _ rfl))
        ho).imp_right .inr
    · exact .inl ho
  | ackRemoves p batch group todo outcome pc hpc hnew =>
    have hstage := hstaged p
    rw [hpc] at hstage
    refine h.update hhist rfl .inl fun ho => ?_
    rw [hpc] at ho
    rcases hnew with rfl | rfl
    · exact (kept_removes (fun g hg => (hstage g hg).imp_right (Removed.mono hhist))
        ho).imp_right .inr
    · exact .inl ho
  | dropRemoves _ _ _ hpc =>
    refine h.update hhist rfl .inl fun ho => .inl ?_
    rcases hpc with hpc | ⟨group, hpc⟩
    · rwa [hpc] at ho
    · rwa [hpc] at ho
  | requeue p entries order hpc hperm =>
    have hopen := hloss.requeue p order rfl
    have hops : opsOf (s.journal.pushFront order).1.entries =
        opsOf order ++ opsOf s.journal.entries := Journal.opsOf_pushFront hopen order
    refine h.update hhist rfl (fun hj => .inl ?_) fun ho => .inr (.inl ?_)
    · simp only [hops]
      exact matches_append.mpr (.inr hj)
    · rw [hpc] at ho
      simp only [hops]
      exact matches_append.mpr (.inl (ho.subset fun x hx => (mem_opsOf_of_perm hperm).mpr hx))
  | drain _ hpc => exact absurd hpc (hloss.drain rfl)

theorem admitted_move :
    s'.admitted = s.admitted ∨
      ∃ items, a = .push items ∧ s.journal.closed = s'.journal.closed ∧
        (s.journal.closed = true → items = []) ∧
        s'.admitted = s.admitted ++ stampItems s.admitted.length items ∧
        opsOf s'.journal.entries =
          opsOf s.journal.entries ++ stampItems s.admitted.length items := by
  cases hmove with
  | still hwork | quiet _ _ hwork => exact .inl hwork.admitted
  | push items _ hpush =>
    refine .inr ⟨items, rfl, (Journal.closed_push hpush).symm, ?_, rfl, Journal.opsOf_push hpush⟩
    intro hclosed
    cases items with
    | nil => rfl
    | cons => simp [Journal.push, stampItems, hclosed] at hpush
  | _ => exact .inl rfl

theorem admitted_getElem?_move (hn : n < s.admitted.length) :
    s'.admitted[n]? = s.admitted[n]? := by
  rcases admitted_move hmove with hsame | ⟨items, -, -, -, hadm, -⟩
  · rw [hsame]
  · rw [hadm, getElem?_append_left hn]

theorem admitted_length_move : s.admitted.length ≤ s'.admitted.length := by
  rcases admitted_move hmove with hsame | ⟨items, -, -, -, hadm, -⟩
  · rw [hsame]
  · rw [hadm, length_append]
    exact Nat.le_add_right _ _

end

theorem stampItems_getElem? (n : Nat) (items : List (SaveItem V)) (k : Nat) :
    (stampItems n items)[k]? = items[k]?.map fun item => item.stamp (n + k) := by
  induction items generalizing n k with
  | nil => rfl
  | cons item items ih =>
    cases k with
    | zero => rfl
    | succ =>
      simp only [stampItems, getElem?_cons_succ, ih]
      rw [Nat.add_right_comm, Nat.add_assoc]

theorem exists_stamp_mem {x : SaveItem V} (hx : x ∈ items) (n : Nat) :
    ∃ m, x.stamp m ∈ stampItems n items := by
  obtain ⟨k, hk⟩ := mem_iff_getElem?.mp hx
  refine ⟨n + k, mem_iff_getElem?.mpr ⟨k, ?_⟩⟩
  rw [stampItems_getElem?, hk]
  rfl

theorem getElem?_append_stampItems (h : (old ++ stampItems old.length items)[n]? = some item) :
    old[n]? = some item ∨
      (item ∈ stampItems old.length items ∧ item.stamps = [n] ∧ old.length ≤ n) := by
  rcases Nat.lt_or_ge n old.length with hlt | hge
  · rw [getElem?_append_left hlt] at h
    exact .inl h
  rw [getElem?_append_right hge] at h
  refine .inr ⟨mem_of_getElem? h, ?_, hge⟩
  rw [stampItems_getElem?, Option.map_eq_some_iff] at h
  obtain ⟨y, -, rfl⟩ := h
  simp only [SaveItem.stamp, cons.injEq, and_true]
  omega

/-- Every admitted item has an operation that stands for it. -/
def AllKept (test : Nat → SaveItem V → OpTest) (s : State V) : Prop :=
  ∀ n item, s.admitted[n]? = some item → Kept (test n item) s

theorem allKept_move (hself : ∀ items, a = .push items →
      ∀ n, ∀ item ∈ stampItems s.admitted.length items, item.stamps = [n] →
        test n item item.isRemove item.target item.stamps) (hmove : Move cfg s a s')
    (hstaged : Staged s)
    (hloss : ∀ n item, s.admitted[n]? = some item → Lossless cfg (test n item) s a)
    (h : AllKept test s) : AllKept test s' := by
  intro n item hitem
  have hold : s.admitted[n]? = some item → Kept (test n item) s' :=
    fun hmem => kept_move hmove hstaged (hloss n item hmem) (h n item hmem)
  rcases admitted_move hmove with hsame | ⟨items, hitems, -, -, hadm, hops⟩
  · rw [hsame] at hitem
    exact hold hitem
  rw [hadm] at hitem
  rcases getElem?_append_stampItems hitem with hmem | ⟨hnew, hstamp, -⟩
  · exact hold hmem
  · refine .inl ⟨item, ?_, hself items hitems n item hnew hstamp⟩
    rw [hops]
    exact mem_append_right _ hnew

theorem Kept.done (h : Kept Q s) (hcount : Counted s) (hzero : s.inFlight = 0)
    (hempty : s.journal.entries = []) : Done Q s := by
  rcases h with hj | ⟨p, hp⟩ | hdone
  · rw [hempty] at hj
    exact absurd hj not_matches_nil
  · rw [hcount.no_owner hzero p] at hp
    exact absurd hp not_matches_nil
  · exact hdone

end CubeCore.OperationAccounting
