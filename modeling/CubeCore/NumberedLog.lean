import Mathlib.Data.List.DropRight
import Mathlib.Data.List.Infix

namespace CubeCore.NumberedLog

open List

variable {α : Type*} {number : α → Nat}

/-- The entries have the numbers `start + 1`, `start + 2` and so on. -/
def Numbered (number : α → Nat) : Nat → List α → Prop
  | _, [] => True
  | start, x :: xs => number x = start + 1 ∧ Numbered number (start + 1) xs

variable {start : Nat} {xs : List α}

theorem numbered_append {ys : List α} :
    Numbered number start (xs ++ ys) ↔
      Numbered number start xs ∧ Numbered number (start + xs.length) ys := by
  induction xs generalizing start with
  | nil => simp [Numbered]
  | cons x xs ih =>
    have hlength : start + (x :: xs).length = start + 1 + xs.length := by
      simp only [length_cons]
      omega
    rw [hlength]
    simp only [cons_append, Numbered, ih, and_assoc]

variable {x : α}

theorem Numbered.snoc (h : Numbered number start xs) (hx : number x = start + xs.length + 1) :
    Numbered number start (xs ++ [x]) :=
  numbered_append.mpr ⟨h, hx, trivial⟩

variable {before rest : List α}

theorem Numbered.number_eq (h : Numbered number start (before ++ x :: rest)) :
    number x = start + before.length + 1 :=
  (numbered_append.mp h).2.1

theorem Numbered.after (h : Numbered number start (before ++ x :: rest)) :
    Numbered number (number x) rest := by
  rw [h.number_eq]
  exact (numbered_append.mp h).2.2

theorem Numbered.number_getLast (h : Numbered number start xs) (hx : xs.getLast? = some x) :
    number x = start + xs.length := by
  obtain ⟨front, rfl⟩ := getLast?_eq_some_iff.mp hx
  rw [h.number_eq, length_append, length_singleton, Nat.add_assoc]

theorem Numbered.start_lt (h : Numbered number start xs) (hx : x ∈ xs) : start < number x := by
  obtain ⟨before, after, rfl⟩ := append_of_mem hx
  have := h.number_eq
  omega

variable {after : List α}

theorem Numbered.le_number {y : α} (h : Numbered number start (before ++ x :: after))
    (hy : y ∈ before) : number y ≤ number x := by
  obtain ⟨front, back, rfl⟩ := append_of_mem hy
  have hfirst := (numbered_append.mp h).1.number_eq
  have hlast := h.number_eq
  simp only [length_append, length_cons] at hlast
  omega

theorem Numbered.eq_of_suffix (h : Numbered number start xs) (hsuffix : x :: rest <:+ xs)
    (hx : number x = start + 1) : x :: rest = xs := by
  obtain ⟨front, rfl⟩ := hsuffix
  have hnumber := h.number_eq
  have hfront : front = [] := eq_nil_of_length_eq_zero (by omega)
  simp [hfront]

theorem Numbered.dropWhile_le (h : Numbered number start xs) :
    xs.dropWhile (fun x => number x ≤ start) = xs := by
  cases xs with
  | nil => rfl
  | cons =>
    apply dropWhile_cons_of_neg
    have := h.1
    simp only [decide_eq_true_eq]
    omega

theorem Numbered.read_after {items : List α} (h : Numbered number start (before ++ x :: after))
    (hitems : items <:+ before ++ x :: after) :
    items.dropWhile (fun y => number y ≤ number x) <:+ after := by
  have hafter : after <:+ before ++ x :: after := ⟨before ++ [x], by simp⟩
  rcases suffix_or_suffix_of_suffix hitems hafter with hlate | ⟨front, rfl⟩
  · exact (dropWhile_suffix _).trans hlate
  obtain ⟨dropped, hsplit⟩ := hitems
  have hfront : dropped ++ front = before ++ [x] := by
    have hlists : dropped ++ front ++ after = before ++ [x] ++ after := by
      simpa using hsplit
    exact append_cancel_right hlists
  have hle : ∀ y ∈ front, decide (number y ≤ number x) = true := by
    intro y hy
    have hmem : y ∈ before ++ [x] := hfront ▸ mem_append_right dropped hy
    rcases mem_append.mp hmem with hbefore | hlast
    · exact decide_eq_true (h.le_number hbefore)
    · rw [mem_singleton.mp hlast]
      exact decide_eq_true le_rfl
  rw [dropWhile_append_of_pos hle, h.after.dropWhile_le]

theorem Numbered.drop (h : Numbered number start xs) {n : Nat} (hn : n ≤ xs.length) :
    Numbered number (start + n) (xs.drop n) := by
  have hsplit := (numbered_append.mp ((take_append_drop n xs).symm ▸ h)).2
  rwa [length_take, Nat.min_eq_left hn] at hsplit

theorem Numbered.dropWhile_eq_drop (h : Numbered number start xs) (n : Nat) :
    xs.dropWhile (fun x => number x ≤ n) = xs.drop (n - start) := by
  induction xs generalizing start with
  | nil => simp
  | cons x xs ih =>
    obtain ⟨hx, hxs⟩ := h
    rcases Nat.lt_or_ge start n with hlt | hge
    · rw [dropWhile_cons_of_pos (by simp only [decide_eq_true_eq]; omega), ih hxs]
      have hsucc : n - start = n - (start + 1) + 1 := by omega
      rw [hsucc, drop_succ_cons]
    · rw [dropWhile_cons_of_neg (by simp only [decide_eq_true_eq]; omega),
        Nat.sub_eq_zero_of_le hge, drop_zero]

theorem Numbered.filter_le (h : Numbered number start xs) (n : Nat) :
    (xs.filter fun x => number x ≤ start + n) = xs.take n := by
  induction xs generalizing start n with
  | nil => simp
  | cons x xs ih =>
    obtain ⟨hx, hxs⟩ := h
    cases n with
    | zero =>
      rw [take_zero, filter_eq_nil_iff]
      intro y hy
      have hlt : start < number y := by
        rcases mem_cons.mp hy with rfl | hy
        · omega
        · have := hxs.start_lt hy
          omega
      simp only [decide_eq_true_eq]
      omega
    | succ n =>
      rw [filter_cons_of_pos (by simp only [decide_eq_true_eq]; omega), take_succ_cons, ← ih hxs n]
      simp only [Nat.add_assoc, Nat.add_comm 1 n]

theorem Numbered.filter_lt (h : Numbered number start (before ++ after)) :
    (before ++ after).filter (fun x => start + before.length < number x) = after := by
  rw [filter_append, filter_eq_nil_iff.mpr, filter_eq_self.mpr, nil_append]
  · intro x hx
    exact decide_eq_true ((numbered_append.mp h).2.start_lt hx)
  intro x hx
  obtain ⟨front, back, rfl⟩ := append_of_mem hx
  have hnumber := (numbered_append.mp h).1.number_eq
  simp only [length_append, length_cons, decide_eq_true_eq]
  omega

theorem rtake_snoc_rtake (xs : List α) (x : α) (n : Nat) :
    (xs.rtake n ++ [x]).rtake n = (xs ++ [x]).rtake n := by
  cases n with
  | zero => simp
  | succ =>
    simp only [rtake_concat_succ, append_cancel_right_eq]
    simp only [rtake_eq_reverse_take_reverse, reverse_reverse, take_take]
    congr 2
    omega

theorem Numbered.rtake_dropWhile (h : Numbered number start xs) (n limit : Nat) :
    (xs.rtake limit).dropWhile (fun x => number x ≤ n) =
      (xs.dropWhile fun x => number x ≤ n).rtake limit := by
  have htail := h.drop (Nat.sub_le xs.length limit)
  simp only [rtake, htail.dropWhile_eq_drop, h.dropWhile_eq_drop, drop_drop, length_drop]
  rcases Nat.le_total (n - start) (xs.length - limit) with hle | hle
  · congr 1
    omega
  · congr 1
    omega

end CubeCore.NumberedLog
