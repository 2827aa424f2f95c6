import CubeCore.FieldLayout
import CubeCore.FlushBarrier

namespace CubeCore.FieldUpdates

open TransitionSystem SaveItems JournalQueue BatchDedup KeptOperations VersionStore FlusherSystem
open FlusherMoves List Function BatchOwnership OperationAccounting OperationOrigin FlushBarrier
open PatchMerge FieldLayout

variable {V : Type}

/-- The operations on `t` are saves of growing versions, and every backend call succeeds. -/
def growingSaves (start : Option (Stored (Doc V))) (t : Target) (s : State V) :
    Label V → Prop
  | .push items =>
    Increasing SaveItem.version start
      (savesOf t (s.admitted ++ stampItems s.admitted.length items)) ∧
    ∀ x ∈ stampItems s.admitted.length items, x.target = t → WellFormed x
  | .save _ outcome => clean outcome
  | .rollbackPending => False
  | _ => True

/-- No batch puts a patch of `t` behind a full write, and one that ends in a patch of `t` is taken
when no save of `t` is pending. -/
def inTurn (cfg : Config V) (t : Target) (s : State V) : Label V → Prop
  | .take _ =>
    FullLast (savesOf t (opsOf (s.journal.tryPopBatch cfg.batchSize).1)) ∧
    ∀ x, lastOp t (opsOf (s.journal.tryPopBatch cfg.batchSize).1) = some x →
      x.mode = .patch → ∀ p, pendingSave t (s.procs p) = none
  | _ => True

def growingTest (t : Target) (s : State V) : Label V → Bool
  | .push items =>
    decide ((savesOf t (s.admitted ++ stampItems s.admitted.length items)).Pairwise
      fun x y => x.version < y.version) &&
    decide (∀ x ∈ stampItems s.admitted.length items, x.target = t → WellFormed x)
  | .save _ (.results fails) => decide (true ∉ fails)
  | .save _ _ | .rollbackPending => false
  | _ => true

variable {a : Label V}

variable {t : Target} {s : State V}

theorem growingSaves_of_test (h : growingTest t s a = true) : growingSaves none t s a := by
  cases a with
  | push =>
    simp only [growingTest, Bool.and_eq_true, decide_eq_true_eq] at h
    exact ⟨⟨h.1, by simp⟩, h.2⟩
  | save p outcome =>
    cases outcome with
    | results => simpa [growingTest, growingSaves, clean] using h
    | error | mismatch => simp [growingTest] at h
  | rollbackPending => simp [growingTest] at h
  | _ => trivial

def setField (version : Nat) (field : String) (value : Nat) : SaveItem Nat :=
  { (.full heroSave.target version [] : SaveItem Nat) with
    mode := .patch
    patch := ⟨AList.singleton field value, [], []⟩ }

def fieldOf (stored : Option (Stored (Doc V))) (field : String) : Option V :=
  stored.bind fun d => d.doc field

/-- The later of two patches commits first, and the field of the earlier one is lost. -/
theorem earlier_patch_lost :
    ∃ s : State Nat,
      Reach (next twoWorkers) (fun s => s = initial twoWorkers fun _ => none)
        (growingSaves none heroSave.target) s ∧
      s.journal.entries = [] ∧ s.inFlight = 0 ∧
      s.backend heroSave.target ≠
        docAfter twoWorkers.decode none (savesOf heroSave.target s.admitted) := by
  refine exists_reach_imp (P := fun s => s.journal.entries = [] ∧ s.inFlight = 0 ∧
      fieldOf (s.backend heroSave.target) "gold" = none ∧
      fieldOf (docAfter twoWorkers.decode none (savesOf heroSave.target s.admitted)) "gold" =
        some 5)
    (exists_of_run rfl (growingTest heroSave.target)
      [.start, .push [setField 1 "gold" 5], .push [setField 2 "level" 3],
        .take (.worker 0), .take (.worker 1),
        .save (.worker 1) (.results []), .finish (.worker 1), .notify (.worker 1),
        .save (.worker 0) (.results []), .finish (.worker 0), .notify (.worker 0)]
      (fun _ _ _ => growingSaves_of_test) (by decide +kernel)) ?_
  rintro s hreach ⟨hempty, hidle, hstored, hspec⟩
  refine ⟨hempty, hidle, ?_⟩
  intro heq
  rw [heq, hspec] at hstored
  simp at hstored

theorem find_saves (entries : List (JournalEntry V)) (t : Target) :
    ((dedup entries).saves.find? fun w => w.target = t) =
      (tablesOf (opsOf entries)).saveMap.lookup t := by
  cases hfind : (dedup entries).saves.find? fun w => w.target = t with
  | some w =>
    have htarget : w.target = t := by simpa using find?_some hfind
    rw [← mem_saves_iff.mp (mem_of_find?_eq_some hfind), htarget]
  | none =>
    rw [eq_comm, Option.eq_none_iff_forall_ne_some]
    intro w hw
    have htarget := (saveMap_provenance hw).1
    have hmem : w ∈ (dedup entries).saves := by
      rwa [mem_saves_iff, htarget]
    exact find?_eq_none.mp hfind w hmem (by simp [htarget])

structure FieldInv (cfg : Config V) (start : Option (Stored (Doc V))) (t : Target)
    (s : State V) : Prop where
  layout : ∃ j k seg, Layout cfg.decode start t s j k seg
  distinct : ∀ p, Distinct (s.procs p)
  calm : ∀ p, Calm t (s.procs p)
  origin : Origin (fun isRemove t' => t' = t → isRemove = false) s

theorem fieldInv_initial (cfg : Config V) (backend : Backend V) (t : Target) :
    FieldInv cfg (backend t) t (initial cfg backend) := by
  refine ⟨⟨0, 0, fun _ => (0, 0), ?_⟩, fun _ => trivial, fun _ => trivial,
    origin_initial cfg backend⟩
  exact
    { increasing := ⟨List.Pairwise.nil, by simp [initial, savesOf]⟩
      wellFormed := by simp [initial, savesOf]
      taken_le := Nat.zero_le _
      journal := rfl
      applied_le := Nat.le_refl 0
      stored := rfl
      pending := by simp [initial, pendingSave]
      patches := by simp [initial, pendingSave]
      frontier := .inl rfl }

variable {p : Pid}

theorem pendingSave_update (h : pendingSave t pc = pendingSave t (procs p)) (q : Pid) :
    pendingSave t (update procs p pc q) = pendingSave t (procs q) := by
  rcases eq_or_ne q p with rfl | hne
  · rw [update_self, h]
  · rw [update_of_ne hne]

variable {cfg : Config V} {start : Option (Stored (Doc V))}

theorem layout_take (hinv : FieldInv cfg start t s) (hguard : inTurn cfg t s (.take p))
    (hcan : canTake cfg s p = true) :
    ∃ j k seg, Layout cfg.decode start t
      { s.setPc p (continueSaves (dedup (s.journal.tryPopBatch cfg.batchSize).1)
          (dedup (s.journal.tryPopBatch cfg.batchSize).1).saves) with
        journal := (s.journal.tryPopBatch cfg.batchSize).2
        inFlight := s.inFlight + 1 } j k seg := by
  obtain ⟨j, k, seg, h⟩ := hinv.layout
  obtain ⟨hfullLast, hpatch⟩ := hguard
  have hops := opsOf_tryPopBatch s.journal cfg.batchSize
  generalize s.journal.tryPopBatch cfg.batchSize = popped at hops hfullLast hpatch ⊢
  have hfree : pendingSave t (s.procs p) = none :=
    pendingSave_of_free (holdsBatch_of_not_busy (canTake_idle hcan).1)
  have hdrop : (savesOf t s.admitted).drop j =
      savesOf t (opsOf popped.1) ++ savesOf t (opsOf popped.2.entries) := by
    rw [← h.journal, hops]
    exact filter_append _ _
  have hsaves : ∀ x ∈ opsOf popped.1, x.target = t → x.isRemove = false := by
    intro x hx
    refine hinv.origin.journal x ?_
    rw [hops]
    exact mem_append_left _ hx
  have hlook := saveMap_lookup_of_no_remove hsaves
  have hpc := pendingSave_continueSaves t (dedup popped.1) (dedup popped.1).saves
  rw [find_saves, hlook] at hpc
  change pendingSave t _ = mergeAll (savesOf t (opsOf popped.1)) at hpc
  rcases eq_nil_or_concat (savesOf t (opsOf popped.1)) with hnil | ⟨pre, x, hbatch⟩
  · -- the batch has no save of `t`
    rw [hnil] at hpc hdrop
    refine ⟨j, k, seg, h.congr rfl ?_ rfl (pendingSave_update (hpc.trans hfree.symm))⟩
    rw [h.journal, hdrop, nil_append]
  rw [concat_eq_append] at hbatch
  rw [hbatch] at hpc hdrop hfullLast
  have hsplit : savesOf t s.admitted = (savesOf t s.admitted).take j ++
      ((pre ++ [x]) ++ savesOf t (opsOf popped.2.entries)) := by
    rw [← hdrop, take_append_drop]
  have hjlen : ((savesOf t s.admitted).take j).length = j := length_take_of_le h.taken_le
  have hver : (pre ++ [x]).Pairwise fun x y => x.version < y.version := by
    have hsorted := h.increasing.sorted
    rw [hsplit] at hsorted
    exact (pairwise_append.mp (pairwise_append.mp hsorted).2.1).1
  have hwf : ∀ y ∈ pre ++ [x], WellFormed y := by
    intro y hy
    refine h.wellFormed y ?_
    rw [hsplit]
    exact mem_append_right _ (mem_append_left _ hy)
  obtain ⟨w, hw, hmerge⟩ := mergeAll_spec hver hwf hfullLast
  rw [hw] at hpc
  have htake : (savesOf t s.admitted).take (j + (pre ++ [x]).length) =
      (savesOf t s.admitted).take j ++ (pre ++ [x]) := by
    rw [take_add, hdrop, take_left]
  have hwrites : Writes cfg.decode start (savesOf t s.admitted) j
      (j + (pre ++ [x]).length) w := by
    refine ⟨by simp, ⟨x, ?_, hmerge.version.symm⟩, ?_⟩
    · have hlt : j + (pre ++ [x]).length - 1 < j + (pre ++ [x]).length := by simp
      rw [← getElem?_take_of_lt hlt, htake]
      rw [← append_assoc, getElem?_append_right (by simp [hjlen])]
      simp [hjlen]
    · rw [htake]
      exact merged_write hmerge hfullLast
  refine ⟨_, _, _, h.take hfree rfl hdrop rfl rfl hpc hwrites ?_⟩
  intro hmode
  refine hpatch x ?_ (hmerge.mode ▸ hmode)
  rw [lastOp]
  change (savesOf t _).getLast? = some x
  rw [hbatch, getLast?_concat]

theorem layout_save (hinv : FieldInv cfg start t s) (hpc : s.procs p = .saving batch todo)
    (hclean : true ∉ fails)
    (hreply : reply = flushChunk cfg s.backend (todo.take (chunkLength cfg todo)) fails)
    (hnew : pendingSave t pc = (todo.drop (chunkLength cfg todo)).find? fun w => w.target = t) :
    ∃ j k seg, Layout cfg.decode start t { s.setPc p pc with
      backend := reply.1, dirty := dirty, writes := s.writes ++ reply.2 } j k seg := by
  subst hreply
  obtain ⟨j, k, seg, h⟩ := hinv.layout
  have hdistinct := hinv.distinct p
  rw [hpc] at hdistinct
  have hsplit := take_append_drop (chunkLength cfg todo) todo
  revert hnew hsplit
  generalize todo.take (chunkLength cfg todo) = chunk
  generalize todo.drop (chunkLength cfg todo) = rest
  intro hnew hsplit
  have hnodup : ((chunk ++ rest).map SaveItem.target).Nodup := hsplit ▸ hdistinct
  rw [map_append, nodup_append] at hnodup
  have hold : pendingSave t (s.procs p) = (chunk ++ rest).find? fun w => w.target = t := by
    rw [hpc, hsplit]
    rfl
  cases hfind : chunk.find? fun w => w.target = t with
  | none =>
    rw [find?_append, hfind, Option.none_or] at hold
    refine ⟨j, k, seg, h.congr rfl rfl ?_ (pendingSave_update (hnew.trans hold.symm))⟩
    refine flushChunk_other cfg s.backend ?_ fails
    intro w hw
    simpa using find?_eq_none.mp hfind w hw
  | some w =>
    have htarget : w.target = t := by simpa using find?_some hfind
    have hw := mem_of_find?_eq_some hfind
    have hrest : (rest.find? fun w => w.target = t) = none := by
      rw [find?_eq_none]
      intro x hx hxt
      have hxt' : x.target = t := by simpa using hxt
      refine hnodup.2.2 w.target (mem_map_of_mem hw) x.target (mem_map_of_mem hx) ?_
      rw [htarget, hxt']
    rw [find?_append, hfind, Option.some_or] at hold
    refine ⟨j, _, seg, h.commit hold htarget rfl rfl ?_ rfl (hnew.trans hrest)⟩
    rw [← htarget]
    refine bulkSave_self cfg.decode s.backend ?_ (mem_map_of_mem hw) hclean
    rw [map_map]
    exact hnodup.1

theorem pendingSave_afterSaves (t : Target) (batch : Batch V) (todo : List (SaveItem V)) :
    pendingSave t (afterSaves batch todo false) = todo.find? fun w => w.target = t :=
  pendingSave_continueSaves t batch todo

theorem savesOf_requeue (hcalm : ∀ x ∈ opsOf entries, x.target ≠ t) (hperm : order.Perm entries) :
    savesOf t (opsOf (s.journal.pushFront order).1.entries) =
      savesOf t (opsOf s.journal.entries) := by
  have horder : savesOf t (opsOf order) = [] := by
    simpa [savesOf] using fun x hx => hcalm x ((mem_opsOf_of_perm hperm).mp hx)
  simp only [Journal.pushFront]
  split
  · rfl
  split
  · rfl
  · rw [opsOf_append, savesOf, filter_append]
    change savesOf t _ ++ savesOf t _ = _
    rw [horder, nil_append]

theorem removeOps_ne (horigin : Origin (fun isRemove t' => t' = t → isRemove = false) s) (p : Pid)
    (batch : Batch V) (howned : ownedOps (s.procs p) = removeOps batch.removes) :
    ∀ x ∈ (removeOps batch.removes : List (SaveItem V)), x.target ≠ t := by
  intro x hx htarget
  have hsave := horigin.owned p x (howned ▸ hx) htarget
  obtain ⟨group, -, r, -, rfl⟩ := mem_removeOps.mp hx
  simp at hsave

theorem layout_move (hmove : Move cfg s a s') (hbase : Base s) (hinv : FieldInv cfg start t s)
    (hrun : growingSaves start t s a) (hturn : inTurn cfg t s a) :
    ∃ j k seg, Layout cfg.decode start t s' j k seg := by
  obtain ⟨j, k, seg, h⟩ := hinv.layout
  have move : ∀ {s' : State V} {p : Pid} {pc : PC V}, s'.admitted = s.admitted →
      s'.journal.entries = s.journal.entries → s'.backend t = s.backend t →
      s'.procs = update s.procs p pc →
      pendingSave t (s.procs p) = none → pendingSave t pc = none →
      ∃ j k seg, Layout cfg.decode start t s' j k seg := by
    intro s' p pc hadm hjournal hbackend hprocs hold hnew
    refine ⟨j, k, seg, h.congr hadm (by rw [hjournal]) hbackend ?_⟩
    rw [hprocs]
    exact pendingSave_update (hnew.trans hold.symm)
  cases hmove with
  | still hwork hprocs =>
    exact ⟨j, k, seg, h.congr hwork.admitted (by rw [hwork.entries]) (by rw [hwork.backend])
      (by simp [hprocs])⟩
  | quiet _ _ hwork hprocs hbusy hbusy' =>
    exact move hwork.admitted hwork.entries (by rw [hwork.backend]) hprocs
      (pendingSave_of_free (holdsBatch_of_not_busy hbusy))
      (pendingSave_of_free (holdsBatch_of_not_busy hbusy'))
  | idleStop =>
    refine ⟨j, k, seg, h.congr rfl ?_ rfl fun _ => rfl⟩
    split <;> rfl
  | wait _ hpc | receive _ hpc | finish _ _ hpc =>
    exact move rfl rfl rfl rfl (by rw [hpc]; rfl) rfl
  | notify p failed hpc =>
    exact move rfl rfl rfl rfl (by rw [hpc]; rfl)
      (pendingSave_of_free (holdsBatch_of_not_busy (afterBatch_idle p failed).1))
  | push _ _ hpush =>
    exact ⟨j, k, seg, h.push rfl (Journal.opsOf_push hpush) rfl rfl hrun.1 hrun.2⟩
  | take p hcan => exact layout_take hinv hturn hcan
  | save p batch todo fails dirty reply pc hpc hreply hnew =>
    have hclean : true ∉ fails := hrun
    refine layout_save hinv hpc hclean hreply ?_
    simp only [hreply, flushChunk_rejected cfg s.backend _ hclean] at hnew
    rcases hnew with rfl | rfl
    · exact pendingSave_afterSaves t batch _
    · rfl
  | dropSaves p batch todo outcome dirty backend hpc hout =>
    exact absurd hrun (not_clean_of_dropSaves hout)
  | ackSaves p batch todo failed _ _ hpc =>
    have hcalm := hinv.calm p
    rw [hpc] at hcalm
    obtain rfl : failed = false := hcalm
    refine ⟨j, k, seg, h.congr rfl rfl rfl (pendingSave_update ?_)⟩
    rw [hpc]
    exact pendingSave_afterSaves t batch todo
  | remove p batch _ _ group _ hpc hgroup hnew =>
    have hin := hbase.inBatch p
    rw [hpc] at hin
    have hne := removeOps_ne hinv.origin p batch (by rw [hpc]; rfl)
    refine move rfl rfl ?_ rfl (by rw [hpc]; rfl) ?_
    · apply remove_of_notMem
      intro hmem
      obtain ⟨r, hr, hrt⟩ := mem_map.mp hmem
      exact hne (removeItem group.1 r) (mem_removeOps.mpr
        ⟨group, hin (mem_of_getElem? hgroup), r, hr, rfl⟩) hrt
    · rcases hnew with rfl | rfl
      · exact pendingSave_continueRemoves t batch _
      · rfl
  | ackRemoves p batch group todo outcome pc hpc hnew =>
    refine move rfl rfl rfl rfl (by rw [hpc]; rfl) ?_
    rcases hnew with rfl | rfl
    · exact pendingSave_continueRemoves t batch _
    · rfl
  | dropRemoves _ _ _ hpc =>
    refine move rfl rfl rfl rfl ?_ rfl
    rcases hpc with hpc | ⟨group, hpc⟩ <;> rw [hpc] <;> rfl
  | requeue p _ _ hpc hperm =>
    have hcalm := hinv.calm p
    rw [hpc] at hcalm
    exact ⟨j, k, seg, h.congr rfl (savesOf_requeue hcalm hperm) rfl
      (pendingSave_update (by rw [hpc]; rfl))⟩
  | drain => exact False.elim hrun

theorem calm_move (hmove : Move cfg s a s') (hrun : growingSaves start t s a)
    (horigin : Origin (fun isRemove t' => t' = t → isRemove = false) s)
    (h : ∀ p, Calm t (s.procs p)) : ∀ p, Calm t (s'.procs p) := by
  have update : ∀ {q : Pid} {pc : PC V}, Calm t pc → ∀ p, Calm t (update s.procs q pc p) :=
    fun hpc => (forall_update_iff _ fun _ => Calm t).mpr ⟨hpc, fun p _ => h p⟩
  have free : ∀ {pc : PC V}, busy pc = false → Calm t pc := by
    intro pc hbusy
    cases pc <;> trivial
  cases hmove with
  | still _ hprocs => rw [hprocs]; exact h
  | quiet _ _ _ hprocs _ hbusy => rw [hprocs]; exact update (free hbusy)
  | idleStop | push => exact h
  | wait | receive | requeue | finish | drain =>
    exact update trivial
  | notify p failed => exact update (free (afterBatch_idle p failed).1)
  | take => exact update (calm_continueSaves t _ _)
  | save p batch todo fails dirty reply pc hpc hreply hnew =>
    subst hreply
    have hclean : true ∉ fails := hrun
    simp only [flushChunk_rejected cfg s.backend _ hclean] at hnew
    rcases hnew with rfl | rfl
    · exact update (calm_continueSaves t batch _)
    · exact update rfl
  | dropSaves p batch todo outcome dirty backend hpc hout =>
    exact absurd hrun (not_clean_of_dropSaves hout)
  | ackSaves p batch todo failed _ _ hpc =>
    have hcalm := h p
    rw [hpc] at hcalm
    obtain rfl : failed = false := hcalm
    exact update (calm_continueSaves t batch todo)
  | remove p batch todo i group pc hpc _ hnew
  | ackRemoves p batch group todo outcome pc hpc hnew =>
    rcases hnew with rfl | rfl
    · exact update (calm_continueRemoves t batch _)
    · exact update trivial
  | dropRemoves p batch _ hpc =>
    refine update (removeOps_ne horigin p batch ?_)
    rcases hpc with hpc | ⟨group, hpc⟩ <;> rw [hpc] <;> rfl

/-- When the flusher is idle, the stored document is what the saves of `t` give
in version order. -/
theorem fields_in_version_order [DecidableEq V] {cfg : Config V} {backend : Backend V}
    {t : Target} {s : State V}
    (h : Reach (next cfg) (fun s => s = initial cfg backend)
      (fun s a => growingSaves (backend t) t s a ∧ inTurn cfg t s a) s)
    (hempty : s.journal.entries = []) (hidle : s.inFlight = 0) :
    s.backend t = docAfter cfg.decode (backend t) (savesOf t s.admitted) := by
  have hbase : ∀ s, Reach (next cfg) (fun s => s = initial cfg backend)
      (fun s a => growingSaves (backend t) t s a ∧ inTurn cfg t s a) s → Base s :=
    fun s hs => base_of_reach (hs.from fun _ hinit => ⟨backend, hinit⟩)
  have hinv : FieldInv cfg (backend t) t s := by
    refine h.invariant_of hbase ?_ ?_
    · rintro _ rfl
      exact fieldInv_initial cfg backend t
    intro s a s' hbase hinv hguard hnext
    have hmove := move_of_next hnext
    refine ⟨layout_move hmove hbase hinv hguard.1 hguard.2,
      stageRule_move distinct_rule hmove hinv.distinct,
      calm_move hmove hguard.1 hinv.origin hinv.calm, ?_⟩
    refine origin_move hmove ?_ hinv.origin
    rintro items rfl x hx htarget
    obtain ⟨n, hn⟩ := exists_stamp_mem hx s.admitted.length
    exact (hguard.1.2 (x.stamp n) hn htarget).1
  obtain ⟨j, k, seg, hlayout⟩ := hinv.layout
  have hdrop := hlayout.journal
  rw [hempty] at hdrop
  have hlen : (savesOf t s.admitted).length ≤ j := drop_eq_nil_iff.mp hdrop.symm
  have hkj : k = j := by
    rcases hlayout.frontier with hkj | ⟨p, hp, -⟩
    · exact hkj
    · exact absurd (pendingSave_of_free ((hbase s h).counted.not_holdsBatch hidle p)) hp
  rw [hlayout.stored, take_of_length_le (by omega)]

def inTurnTest (cfg : Config V) (t : Target) (s : State V) : Label V → Bool
  | .take _ => decide (s.inFlight = 0) &&
      decide (FullLast (savesOf t (opsOf (s.journal.tryPopBatch cfg.batchSize).1)))
  | _ => true

theorem inTurn_of_test (hbase : Base s) (h : inTurnTest cfg t s a = true) : inTurn cfg t s a := by
  cases a with
  | take =>
    simp only [inTurnTest, Bool.and_eq_true, decide_eq_true_eq] at h
    exact ⟨h.2, fun _ _ _ q => pendingSave_of_free (hbase.counted.not_holdsBatch h.1 q)⟩
  | _ => trivial

theorem fields_in_version_order_two_patches :
    ∃ s : State Nat, s.journal.entries = [] ∧ s.inFlight = 0 ∧ s.admitted.length = 2 ∧
      s.backend heroSave.target =
        docAfter twoWorkers.decode none (savesOf heroSave.target s.admitted) := by
  obtain ⟨s, hreach, hempty, hidle, hlen⟩ : ∃ s,
      Reach (next twoWorkers) (fun s => s = initial twoWorkers fun _ => none)
      (fun s a => growingSaves none heroSave.target s a ∧ inTurn twoWorkers heroSave.target s a) s ∧
      s.journal.entries = [] ∧ s.inFlight = 0 ∧ s.admitted.length = 2 :=
    exists_of_run rfl
      (fun s a => growingTest heroSave.target s a && inTurnTest twoWorkers heroSave.target s a)
      [.start, .push [setField 1 "gold" 5], .push [setField 2 "level" 3],
        .take (.worker 0), .save (.worker 0) (.results []), .finish (.worker 0),
        .notify (.worker 0), .take (.worker 1), .save (.worker 1) (.results []),
        .finish (.worker 1), .notify (.worker 1)]
      (fun s a hs htest => by
        obtain ⟨hgrow, hturn⟩ := Bool.and_eq_true_iff.mp htest
        exact ⟨growingSaves_of_test hgrow,
          inTurn_of_test (base_of_reach (hs.from fun _ hinit => ⟨_, hinit⟩)) hturn⟩)
      (by decide +kernel)
  exact ⟨s, hempty, hidle, hlen, fields_in_version_order hreach hempty hidle⟩

end CubeCore.FieldUpdates
