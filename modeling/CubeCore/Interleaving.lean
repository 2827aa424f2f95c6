import CubeCore.TransitionSystem

namespace CubeCore.Interleaving

open TransitionSystem

structure Threads (S P : Type) where
  shared : S
  pc : Nat → P

variable {S P A : Type} {step : Nat → S → P → A → Option (S × P)}

def next (step : Nat → S → P → A → Option (S × P)) (s : Threads S P) :
    Nat × A → Option (Threads S P)
  | (g, a) => (step g s.shared (s.pc g) a).map fun r => ⟨r.1, Function.update s.pc g r.2⟩

variable {s : Threads S P} {init : Threads S P → Prop}

theorem next_eq_some {g : Nat} {a : A} {s' : Threads S P} (h : next step s (g, a) = some s') :
    ∃ e p, step g s.shared (s.pc g) a = some (e, p) ∧ s' = ⟨e, Function.update s.pc g p⟩ := by
  obtain ⟨⟨e, p⟩, hstep, heq⟩ := Option.map_eq_some_iff.mp h
  exact ⟨e, p, hstep, heq.symm⟩

structure Holds (Ok : S → Prop) (Knows : Nat → S → P → Prop) (s : Threads S P) : Prop where
  shared : Ok s.shared
  knows : ∀ g, Knows g s.shared (s.pc g)

variable {Ok : S → Prop} {Knows : Nat → S → P → Prop} {guard : Threads S P → Nat × A → Prop}

/-- What one step has to do for the invariant to be kept. -/
structure Keeps (Ok : S → Prop) (Knows : Nat → S → P → Prop) (g : Nat) (e e' : S) (p : P) :
    Prop where
  shared : Ok e'
  own : Knows g e' p
  other : ∀ g' p', g' ≠ g → Knows g' e p' → Knows g' e' p'

theorem Holds.next {s s'} {l : Nat × A} (h : Holds Ok Knows s)
    (hkeeps : ∀ g a e p, l = (g, a) → step g s.shared (s.pc g) a = some (e, p) →
      Keeps Ok Knows g s.shared e p)
    (hnext : next step s l = some s') : Holds Ok Knows s' := by
  obtain ⟨g, a⟩ := l
  obtain ⟨e, p, hstep, rfl⟩ := next_eq_some hnext
  obtain ⟨hshared, hown, hother⟩ := hkeeps g a e p rfl hstep
  refine ⟨hshared, fun g' => ?_⟩
  rcases eq_or_ne g' g with rfl | hg
  · simpa using hown
  · simpa [hg] using hother g' (s.pc g') hg (h.knows g')

theorem Holds.of_reach (h : Reach (Interleaving.next step) init guard s)
    (hinit : ∀ s, init s → Holds Ok Knows s)
    (hkeeps : ∀ s g a e p, Holds Ok Knows s → guard s (g, a) →
      step g s.shared (s.pc g) a = some (e, p) → Keeps Ok Knows g s.shared e p) :
    Holds Ok Knows s := by
  refine h.invariant hinit ?_
  intro s l s' hinv hguard hnext
  refine hinv.next ?_ hnext
  rintro g a e p rfl hstep
  exact hkeeps s g a e p hinv hguard hstep

theorem pc_of_bounded {n : Nat} {p : P} (h : Reach (Interleaving.next step) init guard s)
    (hinit : ∀ s, init s → ∀ g, n ≤ g → s.pc g = p) (hguard : ∀ s l, guard s l → l.1 < n) :
    ∀ g, n ≤ g → s.pc g = p := by
  induction h with
  | start hs => exact hinit _ hs
  | @step s s' l _ hg hnext ih =>
    intro g hle
    have hlt := hguard s l hg
    have hne : g ≠ l.1 := by omega
    obtain ⟨e, p', -, rfl⟩ := next_eq_some hnext
    exact (Function.update_of_ne hne ..).trans (ih g hle)

section Answers

variable {I O T : Type}

def answers (call : S → I → O × S) : S → List I → List (I × O)
  | _, [] => []
  | s, i :: calls => (i, (call s i).1) :: answers call (call s i).2 calls

variable {call : S → I → O × S} {call' : T → I → O × T} {own : I → Bool}
  {Similar : List I → S → T → Prop}

variable (own Similar) in
/-- A party is answered as if it were alone, when its calls keep two machines similar with the same
answers and the calls of others keep them similar when made to the first only. -/
theorem filter_answers
    (hown : ∀ i calls s t, own i = true → Similar (i :: calls) s t →
      (call s i).1 = (call' t i).1 ∧ Similar calls (call s i).2 (call' t i).2)
    (hother : ∀ i calls s t, own i = false → Similar (i :: calls) s t →
      Similar calls (call s i).2 t) :
    ∀ {calls : List I} {s : S} {t : T}, Similar calls s t →
      (answers call s calls).filter (fun answer => own answer.1) =
        answers call' t (calls.filter own) := by
  intro calls
  induction calls with
  | nil =>
    intro s t _
    rfl
  | cons i calls ih =>
    intro s t hsimilar
    cases hi : own i with
    | false =>
      simp only [answers, List.filter_cons, hi, Bool.false_eq_true, if_false]
      exact ih (hother i calls s t hi hsimilar)
    | true =>
      obtain ⟨hanswer, hnext⟩ := hown i calls s t hi hsimilar
      simp only [answers, List.filter_cons, hi, if_true, hanswer, ih hnext]

end Answers

end CubeCore.Interleaving
