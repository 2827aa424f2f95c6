import Mathlib.Data.List.Induction

namespace CubeCore.UndoLog

universe u v

variable {K : Type u} {S : Type v}

structure Undo (K : Type u) (S : Type v) where
  key : K
  restore : S → S

def unwind (log : List (Undo K S)) (s : S) : S :=
  log.foldr Undo.restore s

theorem unwind_append (log log' : List (Undo K S)) (s : S) :
    unwind (log ++ log') s = unwind log (unwind log' s) :=
  List.foldr_append

/-- `same k` relates states that differ at the location of `k` only. An inverse overwrites it and
treats others alike. -/
structure Overwrites (same : K → S → S → Prop) (u : Undo K S) : Prop where
  own : ∀ s s', same u.key s s' → u.restore s = u.restore s'
  other : ∀ k s s', same k s s' → same k (u.restore s) (u.restore s')

variable {same : K → S → S → Prop} {log : List (Undo K S)} {s s' : S}

theorem unwind_eq_of_same {k : K} (hlog : ∀ u ∈ log, Overwrites same u)
    (hk : ∃ u ∈ log, u.key = k) (h : same k s s') : unwind log s = unwind log s' := by
  -- The argument follows the order of unwinding, so the induction takes the
  -- last entry off first.
  induction log using List.reverseRecOn generalizing s s' with
  | nil => simp at hk
  | append_singleton log last ih =>
    have hlast := hlog last (by simp)
    rw [unwind_append, unwind_append]
    change unwind log (last.restore s) = unwind log (last.restore s')
    by_cases hkey : last.key = k
    · rw [hlast.own s s' (hkey ▸ h)]
    refine ih (fun u hu => hlog u (List.mem_append_left _ hu)) ?_ (hlast.other k s s' h)
    obtain ⟨u, hu, huk⟩ := hk
    rcases List.mem_append.mp hu with hmem | hmem
    · exact ⟨u, hmem, huk⟩
    · rw [List.mem_singleton.mp hmem] at huk
      exact absurd huk hkey

theorem unwind_record {last : Undo K S} (h : last.restore s' = s) :
    unwind (log ++ [last]) s' = unwind log s := by
  rw [unwind_append]
  exact congrArg (unwind log) h

end CubeCore.UndoLog
