import CubeCore.Checked
import CubeCore.DependencyOrder

namespace CubeCore.LoadOrder

open Checked DependencyOrder Relation Function

structure LoadTemplate where
  collection : String
  dependsOn : List String

variable (names : String → Option Nat)

/-- `nameToIdx[t.Collection] = i`. -/
def record (x : LoadTemplate × Nat) : String → Option Nat :=
  Function.update names x.1.collection (some x.2)

variable (templates : List LoadTemplate)

def nameToIdx : String → Option Nat :=
  templates.zipIdx.foldl record fun _ => none

/-- A template is entered in `nameToIdx` by `topoSort`. -/
def recordNew (x : LoadTemplate × Nat) : Except String (String → Option Nat) := do
  rejectIf (x.1.collection = "")
    ("checkpoint loader: template " ++ toString x.2 ++ " has empty collection")
  rejectIf (names x.1.collection ≠ none)
    ("checkpoint loader: duplicate collection " ++ x.1.collection.quote)
  return record names x

/-- The indices of the templates that the template at `i` depends on. -/
def deps (templates : List LoadTemplate) (i : Nat) : List Nat :=
  match templates[i]? with
  | none => []
  | some t => t.dependsOn.filterMap names

def edges (templates : List LoadTemplate) : List (Nat × Nat) :=
  (List.range templates.length).flatMap fun i => (deps names templates i).map (i, ·)

def topoSort : Except String (List Nat) := do
  let names ← templates.zipIdx.foldlM recordNew fun _ => none
  let named := templates.flatMap fun t => t.dependsOn.map (t.collection, ·)
  -- the first dependency without a template is reported
  match named.find? fun x => names x.2 = none with
  | some (collection, dep) =>
    .error ("checkpoint loader: collection " ++ collection.quote ++
      " depends on unknown collection " ++ dep.quote)
  | none =>
    let order := kahnOrder templates.length (edges names templates)
    rejectIf (order.length ≠ templates.length) "checkpoint loader: circular dependency detected"
    return order

def levelOf (order : List Nat) (templates : List LoadTemplate) : Nat → Nat :=
  order.foldl (raise (deps (nameToIdx templates) templates)) fun _ => 0

def buildLevels (order : List Nat) (templates : List LoadTemplate) : List (List Nat) :=
  let level := levelOf order templates
  let maxLevel := ((List.range templates.length).map level).foldr max 0
  (List.range (maxLevel + 1)).map fun k =>
    (List.range templates.length).filter fun i => level i = k

def collections : List String :=
  templates.map (·.collection)

/-- The template at `i` names the collection of the template at `d`. -/
def Depends (i d : Nat) : Prop :=
  ∃ t u, templates[i]? = some t ∧ templates[d]? = some u ∧ u.collection ∈ t.dependsOn

variable {templates : List LoadTemplate} {names : String → Option Nat} {c : String} {i d : Nat}

theorem record_eq_none : record names x c = none ↔ c ≠ x.1.collection ∧ names c = none := by
  unfold record
  by_cases hc : c = x.1.collection <;> simp [hc]

theorem foldlM_recordNew_eq_ok {l : List (LoadTemplate × Nat)} :
    l.foldlM recordNew names = .ok m ↔ "" ∉ l.map (·.1.collection) ∧
      (∀ x ∈ l, names x.1.collection = none) ∧ (l.map (·.1.collection)).Nodup ∧
      l.foldl record names = m := by
  induction l generalizing names with
  | nil => simp [pure_eq_ok]
  | cons x l ih =>
    simp only [List.foldlM_cons, recordNew, bind_eq_ok, rejectIf_eq_ok, pure_eq_ok, exists_unit,
      not_not, and_assoc, exists_and_left, exists_eq_left', ih, record_eq_none, forall₂_and,
      List.map_cons, List.mem_cons, not_or, forall_eq_or_imp, List.nodup_cons, List.mem_map,
      not_exists, not_and, List.foldl_cons, @eq_comm _ ""]
    tauto

theorem map_zipIdx : templates.zipIdx.map (·.1.collection) = collections templates := by
  simp [collections, ← comp_def, ← List.map_map]

section

variable (hnames : (collections templates).Nodup)
include hnames

theorem nameToIdx_eq_some :
    nameToIdx templates c = some i ↔ ∃ t, templates[i]? = some t ∧ t.collection = c := by
  have hfold {l : List (LoadTemplate × Nat)} (hl : (l.map (·.1.collection)).Nodup) :
      l.foldl record (fun _ => none) c = some i ↔ ∃ t, (t, i) ∈ l ∧ t.collection = c := by
    induction l using List.reverseRecOn with
    | nil => simp
    | append_singleton l x ih =>
      rw [List.map_append, List.nodup_append] at hl
      rw [List.foldl_append, List.foldl_cons, List.foldl_nil, record]
      by_cases hc : c = x.1.collection
      · subst hc
        simp only [update_self, Option.some.injEq, List.mem_append, List.mem_singleton]
        constructor
        · rintro rfl
          exact ⟨x.1, .inr rfl, rfl⟩
        · rintro ⟨t, ht | rfl, hc⟩
          · exact absurd hc (hl.2.2 _ (List.mem_map.mpr ⟨_, ht, rfl⟩) _ (by simp))
          · rfl
      · rw [update_of_ne hc, ih hl.1]
        refine exists_congr fun t => and_congr_left fun ht => ?_
        have hne : (t, i) ≠ x := fun heq => hc (by rw [← heq, ht])
        simp [hne]
  simp only [nameToIdx, ← List.mk_mem_zipIdx_iff_getElem?]
  exact hfold (by rwa [map_zipIdx])

theorem nameToIdx_ne_none : nameToIdx templates c ≠ none ↔ c ∈ collections templates := by
  simp only [Option.ne_none_iff_exists', nameToIdx_eq_some hnames, collections, List.mem_map]
  simp only [List.mem_iff_getElem?]
  exact ⟨fun ⟨i, t, ht, hc⟩ => ⟨t, ⟨i, ht⟩, hc⟩, fun ⟨t, ⟨i, ht⟩, hc⟩ => ⟨i, t, ht, hc⟩⟩

theorem mem_deps : d ∈ deps (nameToIdx templates) templates i ↔ Depends templates i d := by
  unfold deps Depends
  cases templates[i]? with
  | none => simp
  | some =>
    simp only [List.mem_filterMap, nameToIdx_eq_some hnames, Option.some.injEq, ↓existsAndEq,
      true_and, and_comm]

end

theorem mem_edges : (i, d) ∈ edges names templates ↔ d ∈ deps names templates i := by
  have hlt (hd : d ∈ deps names templates i) : i < templates.length := by
    unfold deps at hd
    split at hd
    · cases hd
    · exact (List.getElem?_eq_some_iff.mp ‹_›).1
  simp only [edges, List.mem_flatMap, List.mem_range, List.mem_map, Prod.mk.injEq]
  exact ⟨fun ⟨_, _, _, hd, heq, heq'⟩ => heq ▸ heq' ▸ hd, fun hd => ⟨i, hlt hd, d, hd, rfl, rfl⟩⟩

theorem topoSort_eq_ok {order : List Nat} : topoSort templates = .ok order ↔
    "" ∉ collections templates ∧ (collections templates).Nodup ∧
    (∀ t ∈ templates, t.dependsOn ⊆ collections templates) ∧
    kahnAll (List.range templates.length) (edges (nameToIdx templates) templates) = order ∧
    order.length = (List.range templates.length).length := by
  simp only [topoSort, kahnOrder_eq, List.length_range, bind_eq_ok, foldlM_recordNew_eq_ok,
    map_zipIdx, implies_true, true_and, and_assoc, exists_and_left, exists_eq_left']
  refine and_congr_right fun _ => and_congr_right fun hnodup => ?_
  have hlisted : ((templates.flatMap fun t => t.dependsOn.map (t.collection, ·)).find? fun x =>
      nameToIdx templates x.2 = none) = none ↔
      ∀ t ∈ templates, t.dependsOn ⊆ collections templates := by
    simp only [List.find?_eq_none, List.forall_mem_flatMap, List.forall_mem_map,
      decide_eq_true_eq, nameToIdx_ne_none hnodup, List.subset_def]
  rw [← nameToIdx]
  split
  · rename_i hfind
    exact ⟨nofun, fun h => by simp [hlisted.mpr h.1] at hfind⟩
  rename_i hfind
  simp only [bind_eq_ok, rejectIf_eq_ok, exists_unit, pure_eq_ok, not_not]
  constructor
  · rintro ⟨hlength, rfl⟩
    exact ⟨hlisted.mp hfind, rfl, hlength⟩
  · rintro ⟨-, rfl, hlength⟩
    exact ⟨hlength, rfl⟩

theorem mem_buildLevels :
    (∃ l, (buildLevels order templates)[k]? = some l ∧ i ∈ l) ↔
      i < templates.length ∧ levelOf order templates i = k := by
  unfold buildLevels
  generalize levelOf order templates = level
  simp only [List.getElem?_map, Option.map_eq_some_iff, ↓existsAndEq, List.mem_filter,
    List.mem_range, decide_eq_true_eq, and_true]
  constructor
  · rintro ⟨hk, hi⟩
    obtain ⟨_, heq⟩ := List.getElem?_eq_some_iff.mp hk
    exact ⟨hi, by simpa using heq.symm⟩
  · rintro ⟨hi, rfl⟩
    have hle := List.le_max_of_le (List.mem_map_of_mem (f := level) (List.mem_range.mpr hi)) le_rfl
    exact ⟨List.getElem?_range (Nat.lt_succ_of_le hle), hi⟩

theorem buildLevels_perm (order : List Nat) (templates : List LoadTemplate) :
    (buildLevels order templates).flatten.Perm (List.range templates.length) := by
  refine (List.perm_ext_iff_of_nodup (List.nodup_flatten.mpr ⟨?_, ?_⟩) List.nodup_range).mpr ?_
  · intro l hl
    obtain ⟨k, -, rfl⟩ := List.mem_map.mp hl
    exact List.nodup_range.filter _
  · refine List.pairwise_map.mpr (List.nodup_range.imp fun hne i hi hi' => hne ?_)
    simp only [List.mem_filter, decide_eq_true_eq] at hi hi'
    exact hi.2.symm.trans hi'.2
  · intro i
    rw [List.mem_flatten, List.mem_range]
    constructor
    · rintro ⟨l, hl, hi⟩
      obtain ⟨k, hk⟩ := List.mem_iff_getElem?.mp hl
      exact (mem_buildLevels.mp ⟨l, hk, hi⟩).1
    · intro hi
      obtain ⟨l, hl, hmem⟩ := mem_buildLevels.mpr ⟨hi, rfl⟩
      exact ⟨l, List.mem_of_getElem? hl, hmem⟩

/-- `topoSort` succeeds exactly without circles, has dependencies first, and levels are lengths of
longest chains. -/
theorem load_order (templates : List LoadTemplate) :
    ((∃ order, topoSort templates = .ok order) ↔
      "" ∉ collections templates ∧ (collections templates).Nodup ∧
      (∀ t ∈ templates, t.dependsOn ⊆ collections templates) ∧
      ∀ i, ¬ TransGen (Depends templates) i i) ∧
    ∀ order, topoSort templates = .ok order →
      order.Perm (List.range templates.length) ∧ DepsFirst (Depends templates) order ∧
      (buildLevels order templates).flatten.Perm (List.range templates.length) ∧
      ∀ k l, (buildLevels order templates)[k]? = some l → ∀ i ∈ l,
        IsGreatest {m | Chain (Depends templates) i m} k ∧
        ∀ d, Depends templates i d → ∃ k' < k, ∃ l', (buildLevels order templates)[k']? = some l' ∧
          d ∈ l' := by
  have hlt {i d : Nat} : Depends templates i d → i < templates.length ∧ d < templates.length :=
    fun ⟨_, _, ht, hu, _⟩ =>
      ⟨(List.getElem?_eq_some_iff.mp ht).1, (List.getElem?_eq_some_iff.mp hu).1⟩
  have hedge (hnames : (collections templates).Nodup) (i d : Nat) :
      (i, d) ∈ edges (nameToIdx templates) templates ↔ Depends templates i d :=
    mem_edges.trans (mem_deps hnames)
  constructor
  · simp only [topoSort_eq_ok, exists_and_left, exists_eq_left']
    refine and_congr_right fun _ => and_congr_right fun hnames => and_congr_right fun _ => ?_
    rw [length_kahnAll_iff List.nodup_range fun e he =>
      (hlt ((hedge hnames _ _).mp he)).imp List.mem_range.mpr List.mem_range.mpr]
    simp only [hedge hnames]
  intro order h
  obtain ⟨-, hnames, -, rfl, hlength⟩ := topoSort_eq_ok.mp h
  have hbelow (e : Nat × Nat) (he : e ∈ edges (nameToIdx templates) templates) :=
    List.mem_range.mpr (hlt ((hedge hnames _ _).mp he)).1
  obtain ⟨_, hinv⟩ := inv_kahnAll List.nodup_range hbelow
  have hfirst := hinv.first
  have hperm := perm_nodes List.nodup_range hbelow hlength
  simp only [hedge hnames] at hfirst
  refine ⟨hperm, hfirst, buildLevels_perm .., fun k l hl i hi => ?_⟩
  obtain ⟨hi, rfl⟩ := mem_buildLevels.mp ⟨l, hl, hi⟩
  have hlevels := @isGreatest_level (deps (nameToIdx templates) templates) _
    (by simpa only [mem_deps hnames] using hfirst)
  simp only [mem_deps hnames] at hlevels
  have hgreatest (i : Nat) (hi : i < templates.length) :=
    hlevels.2 i (hperm.mem_iff.mpr (List.mem_range.mpr hi))
  refine ⟨hgreatest i hi, fun d hd => ⟨_, ?_, mem_buildLevels.mpr ⟨(hlt hd).2, rfl⟩⟩⟩
  exact (hgreatest i hi).2 (.cons hd (hgreatest d (hlt hd).2).1)

end CubeCore.LoadOrder
