import Mathlib.Order.Basic
import Mathlib.Data.Nat.Basic

namespace CubeCore.TransitionSystem

universe u v

variable {S : Type u} {L : Type v}

/-- The result is `none` as soon as a label is not enabled. -/
def run (next : S → L → Option S) : S → List L → Option S
  | s, [] => some s
  | s, a :: as => (next s a).bind fun s' => run next s' as

/-- The states reached by steps that all meet `guard`, a condition on the label and the state
before. -/
inductive Reach (next : S → L → Option S) (init : S → Prop)
    (guard : S → L → Prop) : S → Prop
  | start {s : S} : init s → Reach next init guard s
  | step {s s' : S} {a : L} :
      Reach next init guard s → guard s a → next s a = some s' →
        Reach next init guard s'

def anyStep : S → L → Prop := fun _ _ => True

variable {next : S → L → Option S} {init : S → Prop} {guard : S → L → Prop}

theorem Reach.invariant {Inv : S → Prop} (hinit : ∀ s, init s → Inv s)
    (hstep : ∀ s a s', Inv s → guard s a → next s a = some s' → Inv s')
    {s : S} (h : Reach next init guard s) : Inv s := by
  induction h with
  | start hs => exact hinit _ hs
  | step _ hguard hnext ih => exact hstep _ _ _ ih hguard hnext

/-- The invariant rule with facts `Base` about reachable states that were
established before. -/
theorem Reach.invariant_of {Base Inv : S → Prop} (hbase : ∀ s, Reach next init guard s → Base s)
    (hinit : ∀ s, init s → Inv s)
    (hstep : ∀ s a s', Base s → Inv s → guard s a → next s a = some s' → Inv s')
    {s : S} (h : Reach next init guard s) : Inv s := by
  induction h with
  | start hs => exact hinit _ hs
  | step hreach hguard hnext ih =>
    exact hstep _ _ _ (hbase _ hreach) ih hguard hnext

variable {s s' : S} {as : List L} {P : S → Prop}

theorem Reach.from {init' : S → Prop} (hinit : ∀ s, init s → init' s)
    (h : Reach next init guard s) : Reach next init' guard s := by
  induction h with
  | start hs => exact .start (hinit _ hs)
  | step _ hguard hnext ih => exact .step ih hguard hnext

theorem Reach.weaken {guard' : S → L → Prop} (hguard : ∀ s a, guard s a → guard' s a)
    (h : Reach next init guard s) : Reach next init guard' s := by
  induction h with
  | start hs => exact .start hs
  | step _ hg hnext ih => exact .step ih (hguard _ _ hg) hnext

theorem Reach.any (h : Reach next init guard s) : Reach next init anyStep s :=
  h.weaken fun _ _ _ => trivial

theorem Reach.of_run (h : Reach next init anyStep s) (hrun : run next s as = some s') :
    Reach next init anyStep s' := by
  induction as generalizing s with
  | nil =>
    have heq : s = s' := by simpa [run] using hrun
    exact heq ▸ h
  | cons a as ih =>
    obtain ⟨t, hnext, hrest⟩ := Option.bind_eq_some_iff.mp hrun
    exact ih (.step h trivial hnext) hrest

section Result

variable {α : Type*} {o : Option α} {P : α → Prop}

theorem of_eq_some {a : α} (h : o = some a) (hall : o.elim True P) : P a := by
  rw [h] at hall
  exact hall

theorem elim_of_eq_some (h : ∀ a, o = some a → P a) : o.elim True P := by
  cases o with
  | none => trivial
  | some a => exact h a rfl

end Result

/-- The system whose steps have to pass a test. -/
def restrict (next : S → L → Option S) (test : S → L → Bool) (s : S) (a : L) : Option S :=
  if test s a then next s a else none

theorem Reach.exists_of_run [DecidablePred P] (h : Reach next init guard s) (test : S → L → Bool)
    (as : List L) (htest : ∀ s a, Reach next init guard s → test s a = true → guard s a)
    (hrun : (run (restrict next test) s as).any (fun s => decide (P s)) = true) :
    ∃ s', Reach next init guard s' ∧ P s' := by
  induction as generalizing s with
  | nil => exact ⟨s, h, by simpa [run] using hrun⟩
  | cons a as ih =>
    simp only [run] at hrun
    cases hstep : restrict next test s a with
    | none => simp [hstep] at hrun
    | some =>
      rw [hstep] at hrun
      simp only [restrict] at hstep
      split at hstep
      · rename_i hpass
        exact ih (.step h (htest _ _ h hpass) hstep) hrun
      · simp at hstep

theorem exists_of_run [DecidablePred P] (hinit : init s) (test : S → L → Bool) (as : List L)
    (htest : ∀ s a, Reach next init guard s → test s a = true → guard s a)
    (hrun : (run (restrict next test) s as).any (fun s => decide (P s)) = true) :
    ∃ s', Reach next init guard s' ∧ P s' :=
  (Reach.start hinit).exists_of_run test as htest hrun

theorem exists_of_anyRun [DecidablePred P] (hinit : init s) (as : List L)
    (hrun : (run next s as).any (fun s => decide (P s)) = true) :
    ∃ s', Reach next init anyStep s' ∧ P s' :=
  exists_of_run hinit (fun _ _ => true) as (fun _ _ _ _ => trivial) hrun

theorem exists_reach_imp {P Q : S → Prop} (h : ∃ s, Reach next init guard s ∧ P s)
    (himp : ∀ s, Reach next init guard s → P s → Q s) : ∃ s, Reach next init guard s ∧ Q s := by
  obtain ⟨s, hreach, hs⟩ := h
  exact ⟨s, hreach, himp s hreach hs⟩

/-- A run of the labels `as` whose steps all meet `guard`. -/
inductive Path (next : S → L → Option S) (guard : S → L → Prop) : S → List L → S → Prop
  | nil {s : S} : Path next guard s [] s
  | cons {s t u : S} {a : L} {as : List L} :
      guard s a → next s a = some t → Path next guard t as u → Path next guard s (a :: as) u

/-- A goal is reached with enough helpful steps: no step raises the rank, and a helpful one lowers
it. -/
theorem Path.eventually (Inv Goal : S → Prop) (rank : S → Nat) (helpful : L → Bool)
    (hkeep : ∀ s a s', Inv s → guard s a → next s a = some s' → Inv s')
    (hgoal : ∀ s a s', Inv s → guard s a → next s a = some s' → Goal s → Goal s')
    (hrank : ∀ s a s', Inv s → guard s a → next s a = some s' → ¬ Goal s →
      Goal s' ∨ rank s' ≤ rank s ∧ (helpful a = true → rank s' < rank s))
    (hpath : Path next guard s as s') (hs : Inv s) (hcount : Goal s ∨ rank s < as.countP helpful) :
    Goal s' := by
  induction hpath with
  | nil => exact hcount.resolve_right (by simp)
  | cons hguard hnext hrest ih =>
    rename_i s t u a as
    apply ih (hkeep s a t hs hguard hnext)
    by_cases hdone : Goal s
    · exact .inl (hgoal s a t hs hguard hnext hdone)
    refine (hrank s a t hs hguard hnext hdone).imp_right fun hlower => ?_
    have hcount := hcount.resolve_left hdone
    rw [List.countP_cons] at hcount
    split at hcount
    · have := hlower.2 ‹_›
      omega
    · omega

section Termination

variable {Inv : S → Prop} {measure : S → Nat}

/-- A measure that every step lowers bounds the length of every run. -/
theorem run_length_le (hstep : ∀ s a s', Inv s → next s a = some s' → Inv s')
    (hlower : ∀ s a s', Inv s → next s a = some s' → measure s' < measure s) (hs : Inv s)
    (hrun : run next s as = some s') :
    as.length + measure s' ≤ measure s := by
  induction as generalizing s with
  | nil =>
    have heq : s = s' := by simpa [run] using hrun
    simp [heq]
  | cons a as ih =>
    obtain ⟨t, hnext, hrest⟩ := Option.bind_eq_some_iff.mp hrun
    have htail := ih (hstep _ _ _ hs hnext) hrest
    have hhead := hlower _ _ _ hs hnext
    simp only [List.length_cons]
    omega

end Termination

end CubeCore.TransitionSystem
