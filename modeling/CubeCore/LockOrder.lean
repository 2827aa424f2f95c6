import Mathlib.Logic.Relation

namespace CubeCore.LockOrder

open Relation (TransGen)

universe u v

variable {P : Type u} {L : Type v}

def WaitsFor (waiting : P → Option L) (owner : L → Option P) (p q : P) : Prop :=
  ∃ l, waiting p = some l ∧ owner l = some q

/-- Every process waits for a lock that comes after all those it owns. -/
def InOrder (before : L → L → Prop) (waiting : P → Option L) (owner : L → Option P) : Prop :=
  ∀ p l held, waiting p = some l → owner held = some p → before held l

variable {before : L → L → Prop} [IsStrictOrder L before] {waiting : P → Option L}
  {owner : L → Option P}

theorem InOrder.owned_of_chain {p q : P} {l : L} (h : InOrder before waiting owner)
    (hl : waiting p = some l) (hchain : TransGen (WaitsFor waiting owner) p q) :
    ∃ l', owner l' = some q ∧ (l = l' ∨ before l l') := by
  induction hchain with
  | single hwait =>
    obtain ⟨l', hl', howner⟩ := hwait
    rw [hl, Option.some.injEq] at hl'
    exact ⟨l', howner, .inl hl'⟩
  | tail _ hwait ih =>
    obtain ⟨held, hheld, hbefore⟩ := ih
    obtain ⟨l', hl', howner⟩ := hwait
    have hstep : before held l' := h _ l' held hl' hheld
    refine ⟨l', howner, .inr ?_⟩
    rcases hbefore with rfl | hbefore
    · exact hstep
    · exact IsTrans.trans _ _ _ hbefore hstep

theorem InOrder.no_cycle (h : InOrder before waiting owner) (p : P) :
    ¬ TransGen (WaitsFor waiting owner) p p := by
  intro hcycle
  obtain ⟨q, ⟨l, hl, _⟩, _⟩ := Relation.TransGen.head'_iff.mp hcycle
  obtain ⟨l', howner, hbefore⟩ := h.owned_of_chain hl hcycle
  have hback : before l' l := h p l l' hl howner
  rcases hbefore with rfl | hbefore
  · exact irrefl l hback
  · exact irrefl l (IsTrans.trans l l' l hbefore hback)

end CubeCore.LockOrder
