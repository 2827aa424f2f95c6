import CubeCore.KeptOperations
import CubeCore.PatchMerge
import Mathlib.Data.Fintype.EquivFin
import Mathlib.Data.List.Chain

namespace CubeCore.DocumentRuns

open SaveItems VersionStore FlusherSystem PatchMerge KeptOperations List

variable {V : Type} (decode : Bytes → Doc V)

def execute (b : Backend V) (x : SaveItem V) : Backend V :=
  if x.isRemove then remove b [x.target] else saveOne decode b x.toOp

def oneByOne (b : Backend V) (ops : List (SaveItem V)) : Backend V :=
  ops.foldl (execute decode) b

def saved (d : Option (Stored (Doc V))) (x : SaveItem V) : Option (Stored (Doc V)) :=
  if accepts d x.version then some ⟨x.version, writeItem decode x (d.map Stored.doc)⟩ else d

def operated (d : Option (Stored (Doc V))) (x : SaveItem V) : Option (Stored (Doc V)) :=
  if x.isRemove then none else saved decode d x

variable (decode : Bytes → Doc V) (b : Backend V)

theorem saveOne_self (x : SaveItem V) :
    saveOne decode b x.toOp x.target = saved decode (b x.target) x := by
  apply save_self

theorem execute_self (x : SaveItem V) :
    execute decode b x x.target = operated decode (b x.target) x := by
  simp only [execute, operated]
  split
  · exact remove_of_mem b mem_cons_self
  · exact saveOne_self decode b x

variable {x : SaveItem V}

theorem execute_other {t : Target} (h : x.target ≠ t) : execute decode b x t = b t := by
  simp only [execute]
  split
  · apply remove_of_notMem
    simpa using Ne.symm h
  · exact save_other b _ _ h.symm

variable (ops : List (SaveItem V))

theorem oneByOne_apply (t : Target) :
    oneByOne decode b ops t = (opsOn t ops).foldl (operated decode) (b t) := by
  induction ops using reverseRecOn with
  | nil => rfl
  | append_singleton ops x ih =>
    simp only [oneByOne, foldl_append, foldl_cons, foldl_nil] at ih ⊢
    by_cases ht : x.target = t
    · rw [opsOn_snoc_self ht, foldl_append, ← ih]
      subst ht
      exact execute_self decode _ x
    · rw [opsOn_snoc_other ht, ← ih]
      exact execute_other decode _ ht

/-- What the last run of saves finds: nothing, when there is a remove before it. -/
def foundBy {A : Type} (ops : List (SaveItem V)) (stored : Option A) : Option A :=
  if ops.any SaveItem.isRemove then none else stored

variable {A : Type}

theorem foundBy_map {B : Type} (f : A → B) (stored : Option A) :
    (foundBy ops stored).map f = foundBy ops (stored.map f) := by
  simp only [foundBy]
  split <;> rfl

theorem foundBy_of_remove {ops : List (SaveItem V)} (h : ops.any SaveItem.isRemove = true)
    (stored : Option A) : foundBy ops stored = none :=
  if_pos h

theorem foundBy_of_no_remove {ops : List (SaveItem V)} (h : ops.any SaveItem.isRemove = false)
    (stored : Option A) : foundBy ops stored = stored := by
  simp [foundBy, h]

variable (d : Option (Stored (Doc V)))

theorem foldl_operated (ops : List (SaveItem V)) :
    ops.foldl (operated decode) d = (lastRun ops).foldl (saved decode) (foundBy ops d) := by
  induction ops using reverseRecOn with
  | nil => rfl
  | append_singleton ops x ih =>
    rw [foldl_append, ih]
    simp only [foldl_cons, foldl_nil, operated]
    cases hx : x.isRemove with
    | true =>
      have hfound : foundBy (ops ++ [x]) d = none := foundBy_of_remove (by simp [hx]) d
      rw [lastRun_remove ops hx, hfound]
      rfl
    | false =>
      have hfound : foundBy (ops ++ [x]) d = foundBy ops d := by simp [foundBy, hx]
      rw [lastRun_save ops hx, foldl_append, hfound]
      rfl

/-- The version test, by the stored version. -/
def above (stored : Option Nat) (version : Nat) : Bool :=
  match stored with
  | none => true
  | some v => decide (v < version)

theorem accepts_eq_above (version : Nat) :
    accepts d version = above (d.map Stored.version) version := by
  cases d <;> rfl

variable {stored : Option Nat}

theorem above_of_lt {v w : Nat} (h : above stored v = true) (hlt : v < w) :
    above stored w = true := by
  cases stored with
  | none => rfl
  | some =>
    simp only [above, decide_eq_true_eq] at h ⊢
    exact Nat.lt_trans h hlt

def Growing (run : List (SaveItem V)) : Prop :=
  run.Pairwise fun x y => x.version < y.version

def live (stored : Option Nat) (run : List (SaveItem V)) : List (SaveItem V) :=
  run.filter fun x => above stored x.version

theorem live_snoc (stored : Option Nat) (run : List (SaveItem V)) (x : SaveItem V) :
    live stored (run ++ [x]) = live stored run ++ if above stored x.version then [x] else [] := by
  simp only [live, filter_append]
  cases hx : above stored x.version <;> simp [hx]

variable {run : List (SaveItem V)}

theorem live_snoc_of_above (h : above stored x.version = true) :
    live stored (run ++ [x]) = live stored run ++ [x] := by
  rw [live_snoc, if_pos h]

theorem live_none (run : List (SaveItem V)) : live none run = run := by
  simp [live, above]

theorem mem_live_iff : x ∈ live stored run ↔ x ∈ run ∧ above stored x.version = true := mem_filter

theorem live_eq_nil (hrun : Growing (run ++ [x])) (hx : above stored x.version = false) :
    live stored (run ++ [x]) = [] := by
  rw [eq_nil_iff_forall_not_mem]
  intro y hy
  obtain ⟨hmem, hy⟩ := mem_live_iff.mp hy
  rcases mem_append.mp hmem with hrest | hlast
  · have hlt := (pairwise_append.mp hrun).2.2 y hrest x mem_cons_self
    rw [above_of_lt hy hlt] at hx
    exact Bool.noConfusion hx
  · rw [mem_singleton.mp hlast, hx] at hy
    exact Bool.noConfusion hy

theorem exists_live_suffix (hrun : Growing run) (stored : Option Nat) :
    ∃ stale, run = stale ++ live stored run := by
  induction run using reverseRecOn with
  | nil => exact ⟨[], rfl⟩
  | append_singleton run x ih =>
    cases hx : above stored x.version with
    | true =>
      obtain ⟨stale, hstale⟩ := ih (pairwise_append.mp hrun).1
      refine ⟨stale, ?_⟩
      rw [live_snoc_of_above hx, ← append_assoc, ← hstale]
    | false =>
      refine ⟨run ++ [x], ?_⟩
      rw [live_eq_nil hrun hx, append_nil]

theorem foldl_saved (hrun : Growing run) :
    run.foldl (saved decode) d = docAfter decode d (live (d.map Stored.version) run) := by
  induction run using reverseRecOn with
  | nil => rfl
  | append_singleton run x ih =>
    obtain ⟨hrest, -, hcross⟩ := pairwise_append.mp hrun
    rw [foldl_append, ih hrest]
    simp only [foldl_cons, foldl_nil, saved]
    cases hx : above (d.map Stored.version) x.version with
    | false =>
      have hstale := live_eq_nil hrun hx
      have hnil : live (d.map Stored.version) run = [] := by
        rw [live_snoc] at hstale
        exact (append_eq_nil_iff.mp hstale).1
      rw [hstale, hnil]
      have hreject : accepts (docAfter decode d []) x.version = false :=
        (accepts_eq_above d x.version).trans hx
      rw [hreject]
      rfl
    | true =>
      rw [live_snoc_of_above hx, docAfter_snoc]
      apply if_pos
      rcases eq_nil_or_concat (live (d.map Stored.version) run) with
        hnil | ⟨pre, y, hlast⟩
      · rw [hnil]
        exact (accepts_eq_above d x.version).trans hx
      rw [concat_eq_append] at hlast
      have hy : y ∈ live (d.map Stored.version) run := by simp [hlast]
      have hlt := hcross y (mem_live_iff.mp hy).1 x mem_cons_self
      rw [hlast, docAfter_snoc]
      exact decide_eq_true hlt

def Touches (p : PersistPatch V) (field : String) : Prop :=
  field ∈ p.set ∨ field ∈ p.unset

variable {field : String} {p : PersistPatch V}

theorem applyPatch_untouched (h : ¬ Touches p field) (doc : Doc V) :
    applyPatch p doc field = doc field := by
  obtain ⟨hset, hunset⟩ := not_or.mp h
  simp [applyPatch, AList.lookup_eq_none.mpr hset, hunset]

theorem applyPatch_touched (h : Touches p field) (doc doc' : Doc V) :
    applyPatch p doc field = applyPatch p doc' field := by
  simp only [applyPatch]
  cases hlook : p.set.lookup field with
  | some => rfl
  | none =>
    have hunset : field ∈ p.unset := h.resolve_left (AList.lookup_eq_none.mp hlook)
    simp [hunset]

theorem patchAll_snoc (seg : List (SaveItem V)) (x : SaveItem V) (doc : Doc V) :
    patchAll (seg ++ [x]) doc = applyPatch x.patch (patchAll seg doc) := by
  simp [patchAll]

theorem patchAll_append (xs ys : List (SaveItem V)) (doc : Doc V) :
    patchAll (xs ++ ys) doc = patchAll ys (patchAll xs doc) := by
  simp [patchAll]

variable {seg : List (SaveItem V)}

theorem patchAll_untouched (h : ∀ y ∈ seg, ¬ Touches y.patch field) (doc : Doc V) :
    patchAll seg doc field = doc field := by
  induction seg using reverseRecOn with
  | nil => rfl
  | append_singleton seg x ih =>
    rw [patchAll_snoc, applyPatch_untouched (h x (by simp))]
    exact ih fun y hy => h y (mem_append_left _ hy)

theorem patchAll_touched {y : SaveItem V} (hy : y ∈ seg) (htouch : Touches y.patch field)
    (doc doc' : Doc V) : patchAll seg doc field = patchAll seg doc' field := by
  induction seg using reverseRecOn with
  | nil => simp at hy
  | append_singleton seg x ih =>
    rw [patchAll_snoc, patchAll_snoc]
    by_cases hx : Touches x.patch field
    · exact applyPatch_touched hx _ _
    rw [applyPatch_untouched hx, applyPatch_untouched hx]
    rcases mem_append.mp hy with hold | hnew
    · exact ih hold
    · rw [mem_singleton.mp hnew] at htouch
      exact absurd htouch hx

theorem patchAll_covered {stale : List (SaveItem V)}
    (h : ∀ y ∈ stale, ∀ field, Touches y.patch field → ∃ z ∈ seg, Touches z.patch field)
    (doc : Doc V) : patchAll (stale ++ seg) doc = patchAll seg doc := by
  funext field
  rw [patchAll_append]
  by_cases htouch : ∃ z ∈ seg, Touches z.patch field
  · obtain ⟨z, hz, hfield⟩ := htouch
    exact patchAll_touched hz hfield _ _
  have hseg : ∀ z ∈ seg, ¬ Touches z.patch field := fun z hz hfield =>
    htouch ⟨z, hz, hfield⟩
  have hstale : ∀ y ∈ stale, ¬ Touches y.patch field := fun y hy hfield =>
    htouch (h y hy field hfield)
  rw [patchAll_untouched hseg, patchAll_untouched hseg, patchAll_untouched hstale]

def fieldsOf (d : Option (Stored (Doc V))) : Doc V :=
  (d.map Stored.doc).getD fun _ => none

theorem fieldsOf_docAfter {xs : List (SaveItem V)} (h : ∀ y ∈ xs, ¬ Touches y.patch field)
    (whole : Doc V) (d : Option (Stored (Doc V))) :
    fieldsOf (docAfter (fun _ => whole) d xs) field =
      if ∃ y ∈ xs, y.mode = .full then whole field else fieldsOf d field := by
  induction xs using reverseRecOn with
  | nil => simp [docAfter, history]
  | append_singleton xs x ih =>
    have ih := ih fun y hy => h y (mem_append_left _ hy)
    rw [docAfter_snoc]
    simp only [fieldsOf, Option.map_some, Option.getD_some]
    cases hx : x.mode with
    | full =>
      rw [writeItem_full _ hx, if_pos ⟨x, by simp, hx⟩]
    | patch =>
      rw [writeItem_patch _ hx, applyPatch_untouched (h x (by simp))]
      refine ih.trans (if_congr ?_ rfl rfl)
      simp [or_and_right, exists_or, hx]

theorem exists_untouched (xs : List (SaveItem V)) : ∃ field, ∀ y ∈ xs, ¬ Touches y.patch field := by
  obtain ⟨field, hfield⟩ := Infinite.exists_notMem_finset
    (xs.flatMap fun y => y.patch.set.keys ++ y.patch.unset).toFinset
  refine ⟨field, ?_⟩
  intro y hy htouch
  apply hfield
  rw [mem_toFinset, mem_flatMap]
  refine ⟨y, hy, mem_append.mpr ?_⟩
  exact htouch.imp_left AList.mem_keys.mp

end CubeCore.DocumentRuns
