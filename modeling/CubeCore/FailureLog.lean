import CubeCore.Interleaving
import Mathlib.Data.List.Basic

namespace CubeCore.FailureLog

open Function Interleaving TransitionSystem

variable {α : Type} [DecidableEq α]

/-- `LTRIM -max -1`. -/
def ltrim (max : Int) (items : List α) : List α :=
  if 0 < max then items.drop (items.length - max.toNat) else items

def appendTrimScript (max : Int) (raw : α) (items : List α) : List α := ltrim max (items ++ [raw])

/-- The loop over the items; `remove` has how many of each are still to be removed. -/
def kept (remove : α → Nat) : List α → List α
  | [] => []
  | raw :: items =>
    if 0 < remove raw then kept (update remove raw (remove raw - 1)) items
    else raw :: kept remove items

/-- `unpack` of more than 8000 values raises an error after `DEL`. -/
def deleteRawScript (raws items : List α) : List α × Bool :=
  let kept := kept raws.count items
  if kept.length = items.length then (items, true)
  else if 8000 < kept.length then ([], false)
  else (kept, true)

inductive Call (α : Type) where
  | appendRaw (raw : α)
  | deleteRaw (raws : List α)

inductive PC (α : Type) where
  | called
  | push (raw : α)
  | llen
  | trimRange (count : Nat)
  | range (raws : List α)
  | del (kept : List α)
  | rpush (kept : List α)
  | returned
deriving DecidableEq

inductive Act where
  | eval (fails : Bool)
  | run
deriving DecidableEq

/-- The calls, each with its number, of a `RedisList` with the limit `max`. -/
structure Calls (α : Type) where
  max : Int
  call : Nat → Call α

def fallback : Call α → PC α
  | .appendRaw raw => .push raw
  | .deleteRaw raws => .range raws

def script (max : Int) (items : List α) : Call α → List α × Bool
  | .appendRaw raw => (appendTrimScript max raw items, true)
  | .deleteRaw raws => deleteRawScript raws items

variable (c : Calls α)

def step (g : Nat) (items : List α) : PC α → Act → Option (List α × PC α)
  | .called, .eval true => some (items, fallback (c.call g))
  | .called, .eval false =>
    let out := script c.max items (c.call g)
    some (out.1, if out.2 then .returned else fallback (c.call g))
  | .push raw, .run => some (items ++ [raw], .llen)
  | .llen, .run =>
    some (items, if 0 < c.max ∧ c.max < items.length then .trimRange items.length else .returned)
  | .trimRange count, .run => some (items, .del (items.drop (count - c.max.toNat)))
  | .range raws, .run =>
    let kept := kept raws.count items
    some (items, if kept.length = items.length then .returned else .del kept)
  | .del kept, .run => some ([], if kept = [] then .returned else .rpush kept)
  | .rpush kept, .run => some (items ++ kept, .returned)
  | _, _ => none

abbrev State (α : Type) : Type := Threads (List α) (PC α)

def next : State α → Nat × Act → Option (State α) := Interleaving.next (step c)

def start (items : List α) : State α := ⟨items, fun _ => .called⟩

/-- What a call is for. -/
def apply (items : List α) (g : Nat) : List α :=
  match c.call g with
  | .appendRaw raw => ltrim c.max (items ++ [raw])
  | .deleteRaw raws => items.diff raws

omit [DecidableEq α] in
theorem length_ltrim_le {max : Int} (hmax : 0 < max) (items : List α) :
    ((ltrim max items).length : Int) ≤ max := by
  simp only [ltrim, hmax, if_true, List.length_drop]
  omega

theorem kept_eq_diff (raws items : List α) : kept raws.count items = items.diff raws := by
  induction items generalizing raws with
  | nil => simp [kept]
  | cons raw items ih =>
    rw [kept, List.cons_diff]
    simp only [List.count_pos_iff]
    split
    · rw [← ih]
      congr 1
      funext other
      grind
    · rw [ih]

variable {c} {s s' : State α} {items : List α} {g : Nat} {a : Act}

theorem script_eq_apply (hmax : 0 < c.max ∧ c.max ≤ 8000) (hlength : (items.length : Int) ≤ c.max) :
    script c.max items (c.call g) = (apply c items g, true) ∧
      ((apply c items g).length : Int) ≤ c.max := by
  cases hcall : c.call g with
  | appendRaw =>
    simp only [script, apply, hcall]
    exact ⟨rfl, length_ltrim_le hmax.1 _⟩
  | deleteRaw raws =>
    have hsub := List.diff_sublist items raws
    have hle := hsub.length_le
    simp only [script, apply, hcall, deleteRawScript, kept_eq_diff]
    refine ⟨?_, by omega⟩
    split
    · rename_i heq
      rw [hsub.eq_of_length heq]
    · rw [if_neg (by omega)]

def resting : PC α → Bool
  | .called | .returned => true
  | _ => false

/-- No other call is in the middle of its fallback. -/
def alone (s : State α) (l : Nat × Act) : Prop := ∀ g, g ≠ l.1 → resting (s.pc g) = true

def begin (order : List Nat) (l : Nat × Act) : List Nat :=
  if l.1 ∈ order then order else order ++ [l.1]

/-- The calls of a run, in the order in which they send their first command. -/
def begun (labels : List (Nat × Act)) : List Nat := labels.foldl begin []

/-- The call leaves `result` if it goes on alone. -/
def Leaves (max : Int) (items result : List α) : PC α → Prop
  | .called => False
  | .push raw => ltrim max (items ++ [raw]) = result
  | .llen => ltrim max items = result
  | .trimRange count => items.drop (count - max.toNat) = result
  | .range raws => items.diff raws = result
  | .del kept => kept = result
  | .rpush kept => items ++ kept = result
  | .returned => items = result

/-- The calls that have begun were applied one after the other. -/
structure Ordered (c : Calls α) (items : List α) (s : State α) (order : List Nat) : Prop where
  nodup : order.Nodup
  called : ∀ g, s.pc g = .called ↔ g ∉ order
  length_le : ((order.foldl (apply c) items).length : Int) ≤ c.max
  rest : (∀ g, resting (s.pc g) = true) → s.shared = order.foldl (apply c) items
  leaves : ∀ g, resting (s.pc g) = false →
    Leaves c.max s.shared (order.foldl (apply c) items) (s.pc g)

theorem leaves_step {items' result : List α} {pc pc' : PC α} (hmax : 0 < c.max)
    (h : Leaves c.max items result pc) (hstep : step c g items pc a = some (items', pc')) :
    Leaves c.max items' result pc' := by
  unfold step at hstep
  split at hstep <;> cases hstep
  · exact h.elim
  · exact h.elim
  · exact h
  · -- `LTRIM` leaves a list within the limit as it is
    rw [Leaves, ltrim, if_pos hmax] at h
    split_ifs with htrim
    · exact h
    · rwa [Nat.sub_eq_zero_of_le (by omega), List.drop_zero] at h
  · exact h
  · rw [kept_eq_diff]
    split_ifs with hlength
    · exact ((List.diff_sublist _ _).eq_of_length hlength).symm.trans h
    · exact h
  · split_ifs with hnil
    · exact hnil.symm.trans h
    · exact h
  · exact h

theorem leaves_first {items' : List α} {pc' : PC α} (hmax : 0 < c.max ∧ c.max ≤ 8000)
    (hlength : (items.length : Int) ≤ c.max)
    (hstep : step c g items .called a = some (items', pc')) :
    Leaves c.max items' (apply c items g) pc' := by
  cases a with
  | run => cases hstep
  | eval fails =>
    cases fails with
    | true =>
      cases hstep
      cases hcall : c.call g <;> simp [fallback, apply, hcall, Leaves]
    | false =>
      simp only [step, (script_eq_apply hmax hlength).1] at hstep
      cases hstep
      rfl

theorem Ordered.next {order : List Nat} {l : Nat × Act} (h : Ordered c items s order)
    (hmax : 0 < c.max ∧ c.max ≤ 8000) (halone : alone s l) (hnext : next c s l = some s') :
    Ordered c items s' (begin order l) := by
  obtain ⟨g, a⟩ := l
  obtain ⟨items', pc, hstep, rfl⟩ := next_eq_some hnext
  have hbegin : (begin order (g, a)).Nodup ∧
      (((begin order (g, a)).foldl (apply c) items).length : Int) ≤ c.max ∧
      Leaves c.max items' ((begin order (g, a)).foldl (apply c) items) pc := by
    by_cases hg : g ∈ order
    · -- the call goes on with its fallback
      simp only [begin, hg, if_true]
      refine ⟨h.nodup, h.length_le, ?_⟩
      cases hresting : resting (s.pc g) with
      | false => exact leaves_step hmax.1 (h.leaves g hresting) hstep
      | true =>
        have hcalled := (h.called g).not_left.mpr hg
        cases hpc : s.pc g <;> simp_all [resting, step]
    · have hpc := (h.called g).mpr hg
      have hrest : s.shared = order.foldl (apply c) items := by
        refine h.rest fun g' => ?_
        rcases eq_or_ne g' g with rfl | hne
        · rw [hpc]
          rfl
        · exact halone g' hne
      rw [hpc, hrest] at hstep
      simp only [begin, hg, if_false, List.foldl_append, List.foldl_cons, List.foldl_nil]
      exact ⟨List.nodup_append.mpr ⟨h.nodup, by simp, by grind⟩,
        (script_eq_apply hmax h.length_le).2, leaves_first hmax h.length_le hstep⟩
  obtain ⟨hnodup, hlength, hleaves⟩ := hbegin
  refine ⟨hnodup, fun g' => ?_, hlength, fun hrest => ?_, fun g' hg' => ?_⟩
  · rcases eq_or_ne g' g with rfl | hne
    · simp only [update_self]
      refine iff_of_false (fun hcalled => ?_) ?_
      · rw [hcalled] at hleaves
        exact hleaves
      · grind [begin]
    · simp only [update_of_ne hne, h.called]
      grind [begin]
  · have hg := hrest g
    simp only [update_self] at hg
    cases pc <;> simp_all [resting, Leaves]
  · rcases eq_or_ne g' g with rfl | hne
    · simpa using hleaves
    · simp [update_of_ne hne, halone g' hne] at hg'

theorem Ordered.path {order : List Nat} {labels : List (Nat × Act)} (h : Ordered c items s order)
    (hmax : 0 < c.max ∧ c.max ≤ 8000) (hpath : Path (FailureLog.next c) alone s labels s') :
    Ordered c items s' (labels.foldl begin order) := by
  induction hpath generalizing order with
  | nil => exact h
  | cons halone hnext _ ih => exact ih (h.next hmax halone hnext)

end CubeCore.FailureLog
