import Mathlib.Order.WellFoundedSet

namespace CubeCore.DependencyOrder

open Relation Function List Nat

variable {α : Type}

/-- A node is added when all it depends on is there. -/
inductive DepsFirst (r : α → α → Prop) : List α → Prop
  | nil : DepsFirst r []
  | snoc (h : DepsFirst r order) (hi : i ∉ order)
      (hdeps : ∀ d, r i d → d ∈ order) : DepsFirst r (order ++ [i])

section Orders

variable {r : α → α → Prop} {order : List α} {i d : α}

theorem DepsFirst.mem (h : DepsFirst r order) (hi : i ∈ order) (hd : r i d) : d ∈ order := by
  induction h with
  | nil => cases hi
  | snoc h _ hdeps ih =>
    rcases mem_append.mp hi with hi | hi
    · exact mem_append_left _ (ih hi)
    · exact mem_append_left _ (hdeps d (mem_singleton.mp hi ▸ hd))

theorem DepsFirst.acyclic (h : DepsFirst r order) (hi : i ∈ order) : ¬ TransGen r i i := by
  induction h with
  | nil => cases hi
  | @snoc order _ h hnew hdeps ih =>
    rcases mem_append.mp hi with hi | hi
    · exact ih hi
    obtain rfl := mem_singleton.mp hi
    intro hcycle
    obtain ⟨d, hd, hback⟩ := TransGen.head'_iff.mp hcycle
    have hin {j : α} (hj : ReflTransGen r d j) : j ∈ order := by
      induction hj with
      | refl => exact hdeps d hd
      | tail _ hnext ih => exact h.mem ih hnext
    exact hnew (hin hback)

theorem DepsFirst.pairwise (h : DepsFirst r order) : order.Pairwise fun i d => ¬ r i d := by
  induction h with
  | nil => exact .nil
  | snoc h hnew _ ih =>
    refine pairwise_append.mpr ⟨ih, pairwise_singleton _ _, fun i hi d hd hr => hnew ?_⟩
    exact mem_singleton.mp hd ▸ h.mem hi hr

end Orders

variable [DecidableEq α]

/-- One edge from `next` is removed. -/
def relax (st : List α × (α → Int)) (next : α) : List α × (α → Int) :=
  (if st.2 next - 1 = 0 then st.1 ++ [next] else st.1,
    Function.update st.2 next (st.2 next - 1))

/-- The nodes that depend on `cur`, once for each edge. -/
def adj (edges : List (α × α)) (cur : α) : List α :=
  (edges.filter fun e => e.2 = cur).map Prod.fst

def kahn (edges : List (α × α)) : Nat → List α → (α → Int) → List α → List α
  | 0, _, _, order => order
  | _ + 1, [], _, order => order
  | fuel + 1, cur :: queue, inDegree, order =>
    let st := (adj edges cur).foldl relax (queue, inDegree)
    kahn edges fuel st.1 st.2 (order ++ [cur])

def kahnAll (nodes : List α) (edges : List (α × α)) : List α :=
  let inDegree (i : α) : Int := edges.countP fun e => e.1 = i
  kahn edges nodes.length (nodes.filter fun i => inDegree i = 0) inDegree []

/-- The loop over the numbers below `n`. -/
def kahnOrder (n : Nat) (edges : List (Nat × Nat)) : List Nat :=
  let inDegree (i : Nat) : Int := edges.countP fun e => e.1 = i
  kahn edges n ((List.range n).filter fun i => inDegree i = 0) inDegree []

/-- The invariant while the edges from `todo` to the last node of the order are left. -/
structure Inv (nodes : List α) (edges : List (α × α)) (todo queue : List α)
    (inDegree : α → Int) (order : List α) : Prop where
  nodup : (order ++ queue).Nodup
  degree : ∀ i, inDegree i =
    (edges.countP (fun e => e.1 = i ∧ e.2 ∉ order) + todo.count i : Nat)
  mem : ∀ i, i ∈ order ++ queue ↔ i ∈ nodes ∧ inDegree i = 0
  first : DepsFirst (fun i d => (i, d) ∈ edges) order
  below : todo ⊆ nodes

section Kahn

variable {nodes : List α} {edges : List (α × α)} {inDegree : α → Int}
  {todo queue order : List α} {cur next : α}

theorem Inv.relax (h : Inv nodes edges (next :: todo) queue inDegree order) :
    Inv nodes edges todo (relax (queue, inDegree) next).1 (relax (queue, inDegree) next).2
      order := by
  have hdegree := h.degree next
  rw [count_cons_self] at hdegree
  have hnew : next ∉ order ++ queue := fun hmem => by
    have := ((h.mem next).mp hmem).2
    omega
  have hlt := h.below mem_cons_self
  refine ⟨?_, fun i => ?_, fun i => ?_, h.first, fun i hi => h.below (mem_cons_of_mem _ hi)⟩
  · simp only [DependencyOrder.relax]
    split_ifs
    · simpa using h.nodup.concat hnew
    · exact h.nodup
  · rcases eq_or_ne i next with rfl | hi
    · simp only [DependencyOrder.relax, update_self]
      omega
    · have := h.degree i
      simpa [DependencyOrder.relax, hi, Ne.symm hi] using this
  · simp only [DependencyOrder.relax]
    rcases eq_or_ne i next with rfl | hi
    · split_ifs with hzero <;> simp [hzero, hlt, hnew]
    · rw [update_of_ne hi, ← h.mem i]
      split_ifs <;> simp [hi]

theorem countP_step (hcur : cur ∉ order) (i : α) :
    edges.countP (fun e => e.1 = i ∧ e.2 ∉ order) =
      edges.countP (fun e => e.1 = i ∧ e.2 ∉ order ++ [cur]) + (adj edges cur).count i := by
  unfold adj
  induction edges with
  | nil => rfl
  | cons e =>
    by_cases hd : e.2 = cur <;> by_cases hmem : e.2 ∈ order <;> by_cases hi : e.1 = i <;>
      simp_all <;> omega

theorem Inv.mem_of_edge {i d : α} (h : Inv nodes edges [] queue inDegree order)
    (hi : i ∈ order ++ queue) (hd : (i, d) ∈ edges) : d ∈ order := by
  have hzero := ((h.mem i).mp hi).2
  rw [h.degree i, Int.natCast_eq_zero, count_nil, add_zero, countP_eq_zero] at hzero
  simpa using hzero (i, d) hd

theorem Inv.pop (hedges : ∀ e ∈ edges, e.1 ∈ nodes)
    (h : Inv nodes edges [] (cur :: queue) inDegree order) :
    Inv nodes edges (adj edges cur) queue inDegree (order ++ [cur]) := by
  have hcur : cur ∉ order := fun hmem =>
    (nodup_append.mp h.nodup).2.2 cur hmem cur mem_cons_self rfl
  refine ⟨by simpa using h.nodup, fun i => ?_, fun i => ?_, h.first.snoc hcur ?_, fun i hi => ?_⟩
  · rw [h.degree i, countP_step hcur, count_nil, add_zero]
  · rw [← h.mem i, append_assoc, singleton_append]
  · exact fun d hd => h.mem_of_edge (by simp) hd
  · obtain ⟨e, he, rfl⟩ := mem_map.mp hi
    exact hedges e (mem_of_mem_filter he)

theorem Inv.foldl_relax (h : Inv nodes edges todo queue inDegree order) :
    Inv nodes edges [] (todo.foldl DependencyOrder.relax (queue, inDegree)).1
      (todo.foldl DependencyOrder.relax (queue, inDegree)).2 order := by
  induction todo generalizing queue inDegree with
  | nil => exact h
  | cons next todo ih => exact ih h.relax

theorem Inv.length_le (h : Inv nodes edges todo queue inDegree order) :
    (order ++ queue).length ≤ nodes.length := by
  have hsub : order ++ queue ⊆ nodes := fun i hi => ((h.mem i).mp hi).1
  exact (subperm_of_subset h.nodup hsub).length_le

theorem Inv.kahn {fuel : Nat} (hedges : ∀ e ∈ edges, e.1 ∈ nodes)
    (h : Inv nodes edges [] queue inDegree order) (hfuel : nodes.length ≤ order.length + fuel) :
    ∃ inDegree', Inv nodes edges [] [] inDegree' (kahn edges fuel queue inDegree order) := by
  induction fuel generalizing queue inDegree order with
  | zero =>
    have hlength := h.length_le
    obtain rfl : queue = [] := eq_nil_of_length_eq_zero (by simp at hlength; omega)
    exact ⟨inDegree, h⟩
  | succ fuel ih =>
    cases queue with
    | nil => exact ⟨inDegree, h⟩
    | cons => exact ih (h.pop hedges).foldl_relax (by simp; omega)

section

variable (hnodup : nodes.Nodup)
include hnodup

theorem inv_kahnAll (hedges : ∀ e ∈ edges, e.1 ∈ nodes) :
    ∃ inDegree, Inv nodes edges [] [] inDegree (kahnAll nodes edges) := by
  refine Inv.kahn hedges ⟨?_, fun i => by simp, fun i => by simp, .nil, nil_subset _⟩ (by simp)
  exact hnodup.filter _

theorem perm_nodes (hedges : ∀ e ∈ edges, e.1 ∈ nodes)
    (h : (kahnAll nodes edges).length = nodes.length) : (kahnAll nodes edges).Perm nodes := by
  obtain ⟨_, hinv⟩ := inv_kahnAll hnodup hedges
  have hsub : kahnAll nodes edges ⊆ nodes := fun i hi =>
    ((hinv.mem i).mp (mem_append_left _ hi)).1
  exact (subperm_of_subset hinv.nodup.of_append_left hsub).perm_of_length_le h.ge

/-- A node that is not in the order depends on another such node, so that they run in a
circle. -/
theorem length_kahnAll_iff (hedges : ∀ e ∈ edges, e.1 ∈ nodes ∧ e.2 ∈ nodes) :
    (kahnAll nodes edges).length = nodes.length ↔
      ∀ i, ¬ TransGen (fun i d => (i, d) ∈ edges) i i := by
  have hbelow (e : α × α) (he : e ∈ edges) := (hedges e he).1
  obtain ⟨_, hinv⟩ := inv_kahnAll hnodup hbelow
  constructor
  · intro hlength i hcycle
    obtain ⟨d, hd, -⟩ := TransGen.head'_iff.mp hcycle
    have hi : i ∈ kahnAll nodes edges :=
      (perm_nodes hnodup hbelow hlength).mem_iff.mpr (hbelow _ hd)
    exact hinv.first.acyclic hi hcycle
  intro hacyclic
  let below (d i : α) : Prop := TransGen (fun i d => (i, d) ∈ edges) i d
  have : IsStrictOrder α below :=
    { irrefl := hacyclic, trans := fun _ _ _ hab hbc => hbc.trans hab }
  have hall (i : α) (hi : i ∈ nodes) : i ∈ kahnAll nodes edges := by
    refine nodes.finite_toSet.wellFoundedOn (r := below) |>.induction hi fun i hi ih => ?_
    have hmem := hinv.mem i
    rw [append_nil] at hmem
    refine hmem.mpr ⟨hi, ?_⟩
    rw [hinv.degree i, Int.natCast_eq_zero, count_nil, add_zero, countP_eq_zero]
    rintro ⟨j, d⟩ he
    simp only [decide_eq_true_eq, not_and, not_not]
    rintro rfl
    exact ih d (hedges _ he).2 (.single he)
  exact le_antisymm (by simpa using hinv.length_le) (subperm_of_subset hnodup hall).length_le

end

theorem kahnOrder_eq (n : Nat) (edges : List (Nat × Nat)) :
    kahnOrder n edges = kahnAll (range n) edges := by
  simp [kahnOrder, kahnAll]

end Kahn

def raise (deps : Nat → List Nat) (level : Nat → Nat) (idx : Nat) : Nat → Nat :=
  (deps idx).foldl
    (fun level d => if level d + 1 > level idx then Function.update level idx (level d + 1)
      else level) level

/-- A chain of `k` dependencies below `i`. -/
inductive Chain (r : Nat → Nat → Prop) : Nat → Nat → Prop
  | nil (i : Nat) : Chain r i 0
  | cons (hd : r i d) (h : Chain r d k) : Chain r i (k + 1)

section Levels

variable {deps : Nat → List Nat} {level : Nat → Nat} {idx : Nat}

theorem raise_spec (hidx : idx ∉ deps idx) :
    (∀ j ≠ idx, raise deps level idx j = level j) ∧ ∀ k, raise deps level idx idx ≤ k ↔
      level idx ≤ k ∧ ∀ d ∈ deps idx, level d + 1 ≤ k := by
  unfold raise
  generalize deps idx = l at hidx ⊢
  induction l generalizing level with
  | nil => simp
  | cons d l ih =>
    have hl : idx ∉ l := fun hmem => hidx (mem_cons_of_mem d hmem)
    rw [foldl_cons]
    split_ifs with hlt
    · obtain ⟨hother, hle⟩ := @ih (update level idx (level d + 1)) hl
      refine ⟨fun j hj => by rw [hother j hj, update_of_ne hj], fun k => ?_⟩
      have hsame (x : Nat) (hx : x ∈ l) : update level idx (level d + 1) x = level x :=
        update_of_ne (ne_of_mem_of_not_mem hx hl) ..
      rw [hle, update_self, forall_mem_cons]
      constructor
      · rintro ⟨hk, hall⟩
        exact ⟨by omega, hk, fun x hx => hsame x hx ▸ hall x hx⟩
      · rintro ⟨-, hk, hall⟩
        exact ⟨hk, fun x hx => (hsame x hx).symm ▸ hall x hx⟩
    · obtain ⟨hother, hle⟩ := @ih level hl
      refine ⟨hother, fun k => ?_⟩
      rw [hle, forall_mem_cons]
      exact and_congr_right fun hk => ⟨fun hall => ⟨by omega, hall⟩, And.right⟩

/-- Along an order with dependencies first, every level becomes the length of the longest
chain. -/
theorem isGreatest_level {order : List Nat} (h : DepsFirst (fun i d => d ∈ deps i) order) :
    (∀ i ∉ order, order.foldl (raise deps) (fun _ => 0) i = 0) ∧
      ∀ i ∈ order, IsGreatest {k | Chain (fun i d => d ∈ deps i) i k}
        (order.foldl (raise deps) (fun _ => 0) i) := by
  induction h with
  | nil => simp
  | @snoc order idx h hidx hdeps ih =>
    obtain ⟨hzero, hgreatest⟩ := ih
    rw [foldl_append, foldl_cons, foldl_nil]
    generalize order.foldl (raise deps) (fun _ => 0) = level at hzero hgreatest ⊢
    obtain ⟨hother, hle⟩ := @raise_spec deps level idx fun hmem => hidx (hdeps idx hmem)
    have hmem {i : Nat} : i ∈ order ++ [idx] ↔ i ∈ order ∨ i = idx := by simp
    refine ⟨fun i hi => ?_, fun i hi => ?_⟩
    · obtain ⟨hi, hne⟩ := not_or.mp (mt hmem.mpr hi)
      exact (hother i hne).trans (hzero i hi)
    rcases eq_or_ne i idx with rfl | hne
    · have habove := (hle _).mp (le_refl _)
      constructor
      · cases hk : raise deps level i i with
        | zero => exact .nil i
        | succ k =>
          -- the level is not `k`, so some dependency has this level
          have hlt := mt (hle k).mpr (by omega)
          simp only [hzero i hidx, zero_le, true_and, not_forall] at hlt
          obtain ⟨d, hd, hlt⟩ := hlt
          have hlevel : level d = k := by
            have := habove.2 d hd
            omega
          exact .cons hd (hlevel ▸ (hgreatest d (hdeps d hd)).1)
      · rintro k (_ | ⟨hd, hchain⟩)
        · exact zero_le _
        · exact (succ_le_succ ((hgreatest _ (hdeps _ hd)).2 hchain)).trans (habove.2 _ hd)
    · rw [hother i hne]
      exact hgreatest i ((hmem.mp hi).resolve_right hne)

end Levels

end CubeCore.DependencyOrder
