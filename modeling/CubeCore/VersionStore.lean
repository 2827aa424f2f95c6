import Mathlib.Logic.Function.Basic

namespace CubeCore.VersionStore

/-- A stored document and the version it was saved under. -/
structure Stored (D : Type) where
  version : Nat
  doc : D
deriving DecidableEq

/-- A store that keeps at most one versioned document for each key. -/
abbrev Store (K D : Type) := K → Option (Stored D)

variable {K D : Type} [DecidableEq K]

/-- A save at version `v` goes through when nothing or a smaller version is stored. -/
def accepts (current : Option (Stored D)) (v : Nat) : Bool :=
  match current with
  | none => true
  | some d => decide (d.version < v)

/-- Save at version `v`. The new document is computed from the stored one. -/
def save (s : Store K D) (k : K) (v : Nat) (write : Option D → D) : Store K D :=
  if accepts (s k) v then
    Function.update s k (some ⟨v, write ((s k).map Stored.doc)⟩)
  else s

/-- Remove the documents of a list of keys. -/
def remove (s : Store K D) (ks : List K) : Store K D :=
  fun k => if k ∈ ks then none else s k

/-- The store holds version `v` of `k` or a later one. -/
def AtLeast (s : Store K D) (k : K) (v : Nat) : Prop :=
  ∃ d, s k = some d ∧ v ≤ d.version

variable {s : Store K D} {k : K} {v : Nat}

omit [DecidableEq K] in
theorem AtLeast.le {w : Nat} (h : AtLeast s k w) (hvw : v ≤ w) : AtLeast s k v := by
  obtain ⟨d, hd, hw⟩ := h
  exact ⟨d, hd, Nat.le_trans hvw hw⟩

theorem save_other {k' : K} (s : Store K D) (v : Nat) (write : Option D → D) (h : k' ≠ k) :
    save s k v write k' = s k' := by
  unfold save
  split
  · exact Function.update_of_ne h _ _
  · rfl

theorem save_self (s : Store K D) (k : K) (v : Nat) (write : Option D → D) :
    save s k v write k =
      if accepts (s k) v then some ⟨v, write ((s k).map Stored.doc)⟩ else s k := by
  unfold save
  split
  · exact Function.update_self _ _ _
  · rfl

omit [DecidableEq K] in
theorem atLeast_of_not_accepts (h : accepts (s k) v = false) : AtLeast s k v := by
  cases hk : s k with
  | none => simp [accepts, hk] at h
  | some d =>
    refine ⟨d, hk, ?_⟩
    simpa [accepts, hk] using h

omit [DecidableEq K] in
theorem not_accepts_of_atLeast (h : AtLeast s k v) : accepts (s k) v = false := by
  obtain ⟨d, hd, hv⟩ := h
  simpa [accepts, hd] using hv

theorem atLeast_save_self (s : Store K D) (k : K) (v : Nat)
    (write : Option D → D) : AtLeast (save s k v write) k v := by
  by_cases h : accepts (s k) v = true
  · exact ⟨⟨v, write ((s k).map Stored.doc)⟩, by simp [save_self, h], Nat.le_refl v⟩
  · have hfalse : accepts (s k) v = false := by simpa using h
    obtain ⟨d, hd, hv⟩ := atLeast_of_not_accepts hfalse
    exact ⟨d, by rw [save_self, hfalse]; simpa using hd, hv⟩

theorem AtLeast.save (h : AtLeast s k v) (k' : K) (v' : Nat) (write : Option D → D) :
    AtLeast (save s k' v' write) k v := by
  rcases eq_or_ne k k' with rfl | hk
  · by_cases hacc : accepts (s k) v' = true
    · obtain ⟨d, hd, hv⟩ := h
      have hlt : d.version < v' := by simpa [accepts, hd] using hacc
      exact (atLeast_save_self s k v' write).le (Nat.le_trans hv (Nat.le_of_lt hlt))
    · obtain ⟨d, hd, hv⟩ := h
      exact ⟨d, by rw [save_self, if_neg hacc, hd], hv⟩
  · obtain ⟨d, hd, hv⟩ := h
    exact ⟨d, by rw [save_other s v' write hk, hd], hv⟩

theorem save_eq_of_atLeast (h : AtLeast s k v) (write : Option D → D) : save s k v write = s := by
  simp [save, not_accepts_of_atLeast h]

variable {ks : List K}

theorem remove_of_mem (s : Store K D) (h : k ∈ ks) : remove s ks k = none := by
  simp [remove, h]

theorem remove_of_notMem (s : Store K D) (h : k ∉ ks) : remove s ks k = s k := by
  simp [remove, h]

section History

variable {X : Type} (version : X → Nat) (write : X → Option D → D)

/-- The stored document after a list of writes, each applied to the one before. -/
def history (start : Option (Stored D)) (xs : List X) : Option (Stored D) :=
  xs.foldl (fun current x => some ⟨version x, write x (current.map Stored.doc)⟩) start

omit [DecidableEq K] in
theorem history_snoc (start : Option (Stored D)) (xs : List X) (x : X) :
    history version write start (xs ++ [x]) =
      some ⟨version x, write x ((history version write start xs).map Stored.doc)⟩ := by
  simp [history]

/-- Versions grow along the list and start above the stored one. -/
structure Increasing (start : Option (Stored D)) (xs : List X) : Prop where
  sorted : xs.Pairwise fun x y => version x < version y
  above : ∀ d, start = some d → ∀ x ∈ xs, d.version < version x

variable {version write} {start : Option (Stored D)}

/-- The version test tells a write that is still to come from one in the history. -/
theorem accepts_history_iff {xs : List X} {x : X} (h : Increasing version start xs) {k r : Nat}
    (hx : xs[r]? = some x) (hk : k ≤ xs.length) :
    accepts (history version write start (xs.take k)) (version x) = true ↔ k ≤ r := by
  have hr : r < xs.length := (List.getElem?_eq_some_iff.mp hx).1
  cases k with
  | zero =>
    simp only [List.take_zero, Nat.zero_le, iff_true]
    cases hs : start with
    | none => rfl
    | some d =>
      have hlt := h.above d hs x (List.mem_of_getElem? hx)
      simpa [history, accepts] using hlt
  | succ k =>
    have hk' : k < xs.length := hk
    obtain ⟨y, hy⟩ : ∃ y, xs[k]? = some y := ⟨xs[k], List.getElem?_eq_getElem hk'⟩
    have htake : xs.take (k + 1) = xs.take k ++ [y] := by
      rw [List.take_add_one, hy]
      rfl
    rw [htake, history_snoc]
    simp only [accepts, decide_eq_true_eq]
    have hpair := List.pairwise_iff_getElem.mp h.sorted
    obtain ⟨hky, rfl⟩ := List.getElem?_eq_some_iff.mp hy
    obtain ⟨hrx, rfl⟩ := List.getElem?_eq_some_iff.mp hx
    constructor
    · intro hlt
      rcases Nat.lt_or_ge k r with hkr | hrk
      · exact hkr
      · rcases Nat.eq_or_lt_of_le hrk with rfl | hlt'
        · exact absurd hlt (Nat.lt_irrefl _)
        · exact absurd (hpair r k hrx hky hlt') (Nat.lt_asymm hlt)
    · exact fun hkr => hpair k r hky hrx hkr

end History

end CubeCore.VersionStore
