import CubeCore.DependencyOrder
import CubeCore.TransitionSystem
import Mathlib.Data.List.TakeWhile

namespace CubeCore.ComponentSort

open DependencyOrder Relation TransitionSystem List

variable {T : Type} [DecidableEq T]

/-- The components of a map `dependencies` are distinct. -/
structure SortCache (T : Type) where
  cache : Option (List T)
  isCacheValid : Bool
  dependencies : List (T × List T)

variable (dependencies : List (T × List T)) (all : List (T × List T) → List T) (nodes : List T)

def registered : List T :=
  dependencies.map Prod.fst

/-- The entries of `graph`: a dependency, and the component it is listed for. -/
def graph : List (T × T) :=
  dependencies.flatMap fun (comp, deps) => deps.map (·, comp)

/-- The keys of `inDegree`. -/
def mentioned : List T :=
  (registered dependencies ++ (graph dependencies).map Prod.fst).dedup

def sortComponents : Option (List T) :=
  let sorted := kahnAll nodes (graph dependencies)
  if sorted.length ≠ (all dependencies).length then none else some sorted.reverse

def registerCompDependency (t : SortCache T) (comp : T) (deps : List T) : SortCache T :=
  if comp ∈ registered t.dependencies then t
  else ⟨none, false, t.dependencies ++ [(comp, deps)]⟩

def getTopologicalSortedComponents (t : SortCache T) : Option (List T) × SortCache T :=
  match t.isCacheValid, t.cache with
  | true, some cached => (some cached, t)
  | _, _ =>
    match sortComponents t.dependencies all nodes with
    | none => (none, t)
    | some sorted => (some sorted, ⟨some sorted, true, t.dependencies⟩)

inductive Call (T : Type)
  | register (comp : T) (deps : List T)
  | get (nodes : List T)

def next (t : SortCache T) : Call T → Option (SortCache T)
  | .register comp deps => some (registerCompDependency t comp deps)
  | .get nodes =>
    if nodes.Perm (mentioned t.dependencies) then
      some (getTopologicalSortedComponents all nodes t).2
    else none

def unsorted (t : SortCache T) : Prop :=
  t = ⟨none, false, []⟩

def Depends (comp dep : T) : Prop :=
  ∃ deps, (comp, deps) ∈ dependencies ∧ dep ∈ deps

/-- No order exactly for a circle, otherwise all components behind their dependencies. -/
def Sorts (result : Option (List T)) : Prop :=
  (result = none ↔ ∃ comp, TransGen (Depends dependencies) comp comp) ∧
  ∀ sorted, result = some sorted → sorted.Perm (all dependencies) ∧
    ∀ before comp after, sorted = before ++ comp :: after →
      ∀ dep, Depends dependencies comp dep → dep ∈ before

variable {dependencies all nodes}

omit [DecidableEq T] in
theorem mem_graph :
    (dep, comp) ∈ graph dependencies ↔ Depends dependencies comp dep := by
  simp [graph, Depends]

theorem mem_mentioned : comp ∈ mentioned dependencies ↔
    comp ∈ registered dependencies ∨ ∃ user, Depends dependencies user comp := by
  simp [mentioned, mem_graph]

theorem sorts_sortComponents (hnodes : nodes.Perm (mentioned dependencies))
    (hall : (mentioned dependencies).Perm (all dependencies)) :
    Sorts dependencies all (sortComponents dependencies all nodes) := by
  have hnodup : nodes.Nodup := hnodes.nodup_iff.mpr (nodup_dedup _)
  have hedges (e : T × T) (he : e ∈ graph dependencies) : e.1 ∈ nodes ∧ e.2 ∈ nodes := by
    have hdep := mem_graph.mp he
    simp only [hnodes.mem_iff, mem_mentioned]
    exact ⟨.inr ⟨_, hdep⟩, .inl (mem_map.mpr ⟨_, hdep.choose_spec.1, rfl⟩)⟩
  have hbelow (e : T × T) (he : e ∈ graph dependencies) := (hedges e he).1
  have hcycle := length_kahnAll_iff hnodup hedges
  simp only [mem_graph, ← not_exists] at hcycle
  change _ ↔ ¬ ∃ i, TransGen (Function.swap (Depends dependencies)) i i at hcycle
  simp only [transGen_swap] at hcycle
  simp only [sortComponents, ← (hnodes.trans hall).length_eq]
  split_ifs with hlength
  · exact ⟨iff_of_true rfl (not_not.mp (mt hcycle.mpr hlength)), nofun⟩
  rw [not_not] at hlength
  have hacyclic := hcycle.mp hlength
  have hperm := perm_nodes hnodup hbelow hlength
  obtain ⟨_, hinv⟩ := inv_kahnAll hnodup hbelow
  refine ⟨iff_of_false nofun hacyclic, ?_⟩
  rintro _ ⟨⟩
  refine ⟨(reverse_perm _).trans (hperm.trans (hnodes.trans hall)), ?_⟩
  intro before comp after heq dep hdep
  have hmem : dep ∈ (kahnAll nodes (graph dependencies)).reverse :=
    mem_reverse.mpr (hperm.mem_iff.mpr (hbelow _ (mem_graph.mpr hdep)))
  have hlater := pairwise_reverse.mpr hinv.first.pairwise
  rw [heq] at hmem hlater
  rcases mem_append.mp hmem with hbefore | hmem
  · exact hbefore
  rcases mem_cons.mp hmem with rfl | hafter
  · exact absurd ⟨dep, .single hdep⟩ hacyclic
  · have hnot := rel_of_pairwise_cons (pairwise_append.mp hlater).2.1 hafter
    exact absurd (mem_graph.mpr hdep) hnot

structure Sound (all : List (T × List T) → List T) (t : SortCache T) : Prop where
  nodup : (registered t.dependencies).Nodup
  cached : t.isCacheValid = true → ∀ cached, t.cache = some cached →
    ∃ nodes, nodes.Perm (mentioned t.dependencies) ∧
      sortComponents t.dependencies all nodes = some cached

theorem sound_next (h : Sound all t) (hnext : next all t call = some t') :
    Sound all t' := by
  cases call with
  | register comp deps =>
    cases hnext
    unfold registerCompDependency
    split_ifs with hcomp
    · exact h
    · exact ⟨by simpa [registered] using h.nodup.concat hcomp, nofun⟩
  | get nodes =>
    obtain ⟨hnodes, rfl⟩ := Option.ite_none_right_eq_some.mp hnext |>.imp_right Option.some.inj
    fun_cases getTopologicalSortedComponents all nodes t with
    | case1 | case2 => exact h
    | case3 sorted hsorted =>
      refine ⟨h.nodup, ?_⟩
      rintro _ _ ⟨⟩
      exact ⟨nodes, hnodes, hsorted⟩

variable {t : SortCache T}

theorem sound_of_reach (h : Reach (next all) unsorted anyStep t) : Sound all t := by
  refine h.invariant ?_ fun _ _ _ hsound _ => sound_next hsound
  rintro _ rfl
  exact ⟨nodup_nil, nofun⟩

theorem sorts_get (h : Sound all t) (hnodes : nodes.Perm (mentioned t.dependencies))
    (hall : (mentioned t.dependencies).Perm (all t.dependencies)) :
    Sorts t.dependencies all (getTopologicalSortedComponents all nodes t).1 := by
  have hsorts := sorts_sortComponents hnodes hall
  fun_cases getTopologicalSortedComponents all nodes t with
  | case1 cached hcache hvalid =>
    obtain ⟨nodes', hnodes', hsorted⟩ := h.cached hvalid cached hcache
    exact hsorted ▸ sorts_sortComponents hnodes' hall
  | case2 hsorted | case3 _ hsorted => exact hsorted ▸ hsorts

/-- With every dependency registered, a `TopologicalSortCache` sorts what is registered. -/
theorem registered_sorted (h : Reach (next registered) unsorted anyStep t)
    (hnodes : nodes.Perm (mentioned t.dependencies))
    (hclosed : ∀ comp dep, Depends t.dependencies comp dep → dep ∈ registered t.dependencies) :
    Sorts t.dependencies registered (getTopologicalSortedComponents registered nodes t).1 := by
  have hsound := sound_of_reach h
  refine sorts_get hsound hnodes ((perm_ext_iff_of_nodup (nodup_dedup _) hsound.nodup).mpr ?_)
  intro comp
  exact mem_mentioned.trans ⟨fun hor => hor.elim id fun ⟨user, huser⟩ => hclosed user comp huser,
    .inl⟩

theorem registered_sorted_two : ∃ t, Reach (next registered) unsorted anyStep t ∧
    Sorts t.dependencies registered (getTopologicalSortedComponents registered [2, 1] t).1 ∧
    (getTopologicalSortedComponents registered [2, 1] t).1 = some [2, 1] := by
  have hreach : Reach (next registered) unsorted anyStep (⟨none, false, [(1, [2]), (2, [])]⟩) :=
    .step (a := .register 2 []) (.step (a := .register 1 [2]) (.start rfl) trivial rfl) trivial rfl
  refine ⟨_, hreach, registered_sorted hreach (by decide) ?_, by decide⟩
  rintro comp dep ⟨deps, hmem, hdep⟩
  simp_all [registered]
  grind

/-- A dependency that is not registered counts as a circle. -/
theorem unregistered_dependency : ∃ t, Reach (next registered) unsorted anyStep t ∧
    (getTopologicalSortedComponents registered [1, 2] t).1 = none ∧
    ¬ ∃ comp : Nat, TransGen (Depends t.dependencies) comp comp := by
  refine ⟨⟨none, false, [(1, [2])]⟩, .step (a := .register 1 [2]) (.start rfl) trivial rfl,
    by decide, ?_⟩
  rintro ⟨comp, hcycle⟩
  obtain ⟨_, hfirst, -⟩ := TransGen.head'_iff.mp hcycle
  obtain ⟨_, -, hlast⟩ := TransGen.tail'_iff.mp hcycle
  simp_all [Depends]

variable (fails : T → Bool) (types sorted : List T)

/-- `OnInitFinish` calls up to the first error. -/
def initLoop (order : List T) : List T → List T × Bool
  | [] => (order, true)
  | ct :: rest => if fails ct then (order, false) else initLoop (order ++ [ct]) rest

/-- `InitAll` along an order: `initOrder`, and whether there was no error. -/
def initAll : List T × Bool :=
  if sorted = [] then initLoop fails [] types
  else
    match initLoop fails [] (sorted.filter (· ∈ types)) with
    | (order, false) => (order, false)
    | (order, true) => initLoop fails order (types.filter (· ∉ order))

/-- The `OnDestroy` calls of `DestroyAll`. -/
def destroyAll (initOrder : List T) : List T :=
  let destroyed := initOrder.reverse.foldl
    (fun destroyed ct => if ct ∉ types ∨ ct ∈ destroyed then destroyed else destroyed ++ [ct]) []
  destroyed ++ types.reverse.filter (· ∉ destroyed)

omit [DecidableEq T] in
theorem initLoop_eq (order rest : List T) :
    initLoop fails order rest = (order ++ rest.takeWhile (!fails ·), rest.all (!fails ·)) := by
  induction rest generalizing order with
  | nil => simp [initLoop]
  | cons ct rest ih => cases hct : fails ct <;> simp [initLoop, hct, ih]

theorem initAll_eq {types sorted : List T} (hsub : types ⊆ sorted) : initAll fails types sorted =
    ((sorted.filter (· ∈ types)).takeWhile (!fails ·),
      (sorted.filter (· ∈ types)).all (!fails ·)) := by
  unfold initAll
  split_ifs with hsorted
  · subst hsorted
    simp [initLoop, subset_nil.mp hsub]
  rw [initLoop_eq, nil_append]
  cases hall : (sorted.filter (· ∈ types)).all (!fails ·) with
  | false => rfl
  | true =>
    have hnone : types.filter (· ∉ sorted.filter (· ∈ types)) = [] := by
      simpa using fun ct hct => ⟨hsub hct, hct⟩
    have htake : (sorted.filter (· ∈ types)).takeWhile (!fails ·) = sorted.filter (· ∈ types) :=
      takeWhile_eq_self_iff.mpr (all_eq_true.mp hall)
    simp only [htake, hnone, initLoop]

theorem destroyAll_perm {types : List T} (hnodup : types.Nodup) (initOrder : List T) :
    (destroyAll types initOrder).Perm types := by
  unfold destroyAll
  extract_lets destroyed
  obtain ⟨hdestroyed, hsub⟩ : destroyed.Nodup ∧ destroyed ⊆ types := by
    refine foldlRecOn (motive := fun done => done.Nodup ∧ done ⊆ types) _ _
      ⟨nodup_nil, nil_subset _⟩ fun done ⟨hdone, hsub⟩ ct _ => ?_
    split_ifs with hct
    · exact ⟨hdone, hsub⟩
    · rw [not_or, not_not] at hct
      exact ⟨by simpa using hdone.concat hct.2, by simpa [hct.1] using hsub⟩
  refine (perm_ext_iff_of_nodup (nodup_append'.mpr ⟨hdestroyed, ?_, ?_⟩) hnodup).mpr fun ct => ?_
  · exact (nodup_reverse.mpr hnodup).filter _
  · intro ct hct hrest
    simp [hct] at hrest
  · by_cases hct : ct ∈ destroyed
    · simp [hct, hsub hct]
    · simp [hct]

/-- An entity initialises its components in the sorted order up to the first error, and destroys
each once. -/
theorem component_order (h : Reach (next mentioned) unsorted anyStep t)
    (hnodes : nodes.Perm (mentioned t.dependencies)) :
    Sorts t.dependencies mentioned (getTopologicalSortedComponents mentioned nodes t).1 ∧
    ∀ sorted, (getTopologicalSortedComponents mentioned nodes t).1 = some sorted →
      ∀ types : List T, types.Nodup → types ⊆ mentioned t.dependencies →
        (∀ fails, initAll fails types sorted = ((sorted.filter (· ∈ types)).takeWhile (!fails ·),
          (sorted.filter (· ∈ types)).all (!fails ·))) ∧
        ∀ initOrder, (destroyAll types initOrder).Perm types := by
  have hsorts := sorts_get (sound_of_reach h) hnodes (Perm.refl _)
  refine ⟨hsorts, fun sorted hsorted types hnodup hsub => ⟨fun fails => ?_, ?_⟩⟩
  · exact initAll_eq fails fun ct hct => (hsorts.2 sorted hsorted).1.mem_iff.mpr (hsub hct)
  · exact destroyAll_perm hnodup

theorem component_order_two : ∃ t, Reach (next mentioned) unsorted anyStep t ∧
    (getTopologicalSortedComponents mentioned [1, 2] t).1 = some [2, 1] ∧
    initAll (· = 1) [1, 2] [2, 1] = ([2], false) ∧
    (destroyAll [1, 2] [2]).Perm [1, 2] := by
  have hreach : Reach (next mentioned) unsorted anyStep (⟨none, false, [(1, [2])]⟩) :=
    .step (a := .register 1 [2]) (.start rfl) trivial rfl
  obtain ⟨-, hentity⟩ := component_order hreach (Perm.refl [1, 2])
  obtain ⟨hinit, hdestroy⟩ := hentity [2, 1] (by decide) [1, 2] (by decide) (by decide)
  exact ⟨_, hreach, by decide, hinit _, hdestroy _⟩

end CubeCore.ComponentSort
