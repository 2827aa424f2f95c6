import Mathlib.Data.List.Forall2

namespace CubeCore.Checked

variable {ε α β : Type}

def rejectIf (c : Prop) [Decidable c] (e : ε) : Except ε Unit :=
  if c then .error e else .ok ()

variable {c : Prop} {e : ε}

@[simp] theorem rejectIf_eq_ok {u : Unit} [Decidable c] : rejectIf c e = .ok u ↔ ¬ c := by
  unfold rejectIf
  split <;> simp_all

variable {e' : ε}

@[simp] theorem rejectIf_eq_error [Decidable c] :
    rejectIf c e = .error e' ↔ c ∧ e = e' := by
  unfold rejectIf
  split <;> simp_all

variable {x : Except ε α} {f : α → Except ε β}

theorem bind_eq_ok {b : β} : (x >>= f) = .ok b ↔ ∃ a, x = .ok a ∧ f a = .ok b := by
  cases x <;> simp [bind, Except.bind]

theorem exists_unit {p : Unit → Prop} : (∃ u, p u) ↔ p () := ⟨fun ⟨_, h⟩ => h, fun h => ⟨(), h⟩⟩

theorem bind_eq_error : (x >>= f) = .error e ↔ x = .error e ∨ ∃ a, x = .ok a ∧ f a = .error e := by
  cases x <;> simp [bind, Except.bind]

theorem pure_eq_ok {b : α} : (pure a : Except ε α) = .ok b ↔ a = b := by
  simp [pure, Except.pure]

theorem ok_bind {a : α} : (Except.ok a >>= f) = f a := rfl

theorem mapM_eq_ok {as : List α} {bs : List β} (h : as.mapM f = .ok bs) :
    List.Forall₂ (fun a b => f a = .ok b) as bs := by
  induction as generalizing bs with
  | nil =>
    obtain rfl := pure_eq_ok.mp h
    exact .nil
  | cons a as ih =>
    simp only [List.mapM_cons, bind_eq_ok, pure_eq_ok] at h
    obtain ⟨b, hb, bs, hbs, rfl⟩ := h
    exact .cons hb (ih hbs)

/-- The computation does not fail with this error. -/
def Avoids (e : ε) (x : Except ε α) : Prop :=
  x ≠ .error e

theorem avoids_ok (a : α) : Avoids e (.ok a) := nofun

theorem Avoids.bind (hx : Avoids e x) (hf : ∀ a, x = .ok a → Avoids e (f a)) :
    Avoids e (x >>= f) := by
  intro h
  rcases bind_eq_error.mp h with h | ⟨a, ha, h⟩
  · exact hx h
  · exact hf a ha h

theorem bind_eq_error_of_avoids (hf : ∀ a, x = .ok a → Avoids e (f a)) :
    (x >>= f) = .error e ↔ x = .error e := by
  rw [bind_eq_error]
  constructor
  · rintro (h | ⟨a, ha, h⟩)
    · exact h
    · exact absurd h (hf a ha)
  · exact .inl

theorem Avoids.check [Decidable c] {f : Unit → Except ε β} (hne : ¬ c ∨ e' ≠ e)
    (hf : ¬ c → Avoids e (f ())) : Avoids e (rejectIf c e' >>= f) := by
  refine .bind ?_ ?_
  · intro h
    obtain ⟨hc, heq⟩ := rejectIf_eq_error.mp h
    exact hne.elim (absurd hc) (absurd heq)
  · exact fun _ h => hf (rejectIf_eq_ok.mp h)

theorem avoids_mapM (hf : ∀ a, Avoids e (f a)) (as : List α) : Avoids e (as.mapM f) := by
  induction as with
  | nil => exact avoids_ok []
  | cons a as ih =>
    rw [List.mapM_cons]
    exact .bind (hf a) fun _ _ => .bind ih fun _ _ => avoids_ok _

end CubeCore.Checked
