import Mathlib.Order.Lattice
import Mathlib.Data.List.Induction

namespace CubeCore.ClearedRegister

open List

inductive Op (V : Type) where
  | put (value : V)
  | clear

variable {V M O : Type} [LinearOrder O] (version : V → O) (read : M → Option (Op V))

def apply (register : Option V) : Op V → Option V
  | .clear => none
  | .put value =>
    match register with
    | none => some value
    | some old => if version value < version old then some old else some value

/-- The register after messages, of which `read` says what they do to it. -/
def after (messages : List M) : Option V :=
  messages.foldl (fun register m => (read m).elim register (apply version register)) none

/-- The value was put, and there was no clear after that. -/
def PutSince (messages : List M) (value : V) : Prop :=
  ∃ before m rest, messages = before ++ m :: rest ∧ read m = some (.put value) ∧
    ∀ d ∈ rest, read d ≠ some .clear

theorem after_snoc (messages : List M) (m : M) :
    after version read (messages ++ [m]) =
      (read m).elim (after version read messages)
        (apply version (after version read messages)) := by
  simp [after]

variable {read} {messages : List M} {value : V}

theorem putSince_snoc {last : M} :
    PutSince read (messages ++ [last]) value ↔
      read last = some (.put value) ∨ read last ≠ some .clear ∧ PutSince read messages value := by
  constructor
  · rintro ⟨before, m, rest, heq, hput, hrest⟩
    rcases eq_nil_or_concat rest with rfl | ⟨rest', d, rfl⟩
    · obtain ⟨rfl, hlast⟩ := append_inj' heq rfl
      obtain rfl := singleton_inj.mp hlast
      exact .inl hput
    rw [concat_eq_append, ← cons_append, ← append_assoc] at heq
    obtain ⟨hmessages, hlast⟩ := append_inj' heq rfl
    obtain rfl := singleton_inj.mp hlast
    refine .inr ⟨hrest last (by simp), before, m, rest', hmessages, hput, ?_⟩
    exact fun d hd => hrest d (by simp [hd])
  · rintro (hput | ⟨hlast, before, m, rest, rfl, hput, hrest⟩)
    · exact ⟨messages, last, [], rfl, hput, nofun⟩
    · refine ⟨before, m, rest ++ [last], by simp, hput, ?_⟩
      rw [forall_mem_append, forall_mem_singleton]
      exact ⟨hrest, hlast⟩

theorem exists_put_of_putSince (h : PutSince read messages value) :
    ∃ m ∈ messages, read m = some (.put value) := by
  obtain ⟨before, m, rest, rfl, hput, -⟩ := h
  exact ⟨m, by simp, hput⟩

variable (read messages) in
/-- The register has one of the highest values put since the last clear. -/
theorem after_spec :
    (after version read messages = none ↔ ∀ value, ¬ PutSince read messages value) ∧
      ∀ value, after version read messages = some value →
        PutSince read messages value ∧
          ∀ other, PutSince read messages other → version other ≤ version value := by
  induction messages using reverseRecOn with
  | nil =>
    refine ⟨⟨fun _ value h => ?_, fun _ => rfl⟩, nofun⟩
    obtain ⟨m, hm, -⟩ := exists_put_of_putSince h
    cases hm
  | append_singleton messages last ih =>
    obtain ⟨hnone, hsome⟩ := ih
    rw [after_snoc]
    simp only [putSince_snoc]
    cases hread : read last with
    | none => simpa using ⟨hnone, hsome⟩
    | some op =>
      cases op with
      | clear => simp [apply]
      | put new =>
        have hnew : ¬ ∀ value, ¬ (some (Op.put new) = some (.put value) ∨
            some (Op.put new) ≠ some .clear ∧ PutSince read messages value) :=
          fun h => h new (.inl rfl)
        cases hafter : after version read messages with
        | none =>
          have hno := hnone.mp hafter
          refine ⟨⟨nofun, fun h => absurd h hnew⟩, ?_⟩
          rintro _ ⟨⟩
          refine ⟨.inl rfl, ?_⟩
          rintro other (⟨⟨⟩⟩ | ⟨-, hother⟩)
          · exact le_rfl
          · exact absurd hother (hno other)
        | some old =>
          obtain ⟨hold, hle⟩ := hsome old hafter
          by_cases hlt : version new < version old
          · have hkept : apply version (some old) (.put new) = some old := by
              simp [apply, hlt]
            rw [Option.elim_some, hkept]
            refine ⟨⟨nofun, fun h => absurd h hnew⟩, ?_⟩
            rintro _ ⟨⟩
            refine ⟨.inr ⟨nofun, hold⟩, ?_⟩
            rintro other (⟨⟨⟩⟩ | ⟨-, hother⟩)
            · exact le_of_lt hlt
            · exact hle other hother
          · have htaken : apply version (some old) (.put new) = some new := by
              simp [apply, hlt]
            rw [Option.elim_some, htaken]
            refine ⟨⟨nofun, fun h => absurd h hnew⟩, ?_⟩
            rintro _ ⟨⟩
            refine ⟨.inl rfl, ?_⟩
            rintro other (⟨⟨⟩⟩ | ⟨-, hother⟩)
            · exact le_rfl
            · exact le_trans (hle other hother) (not_lt.mp hlt)

theorem after_eq_some_iff (hle : ∀ m ∈ messages, ∀ other, read m = some (.put other) →
      version other ≤ version value ∧ (version other = version value → other = value)) :
    after version read messages = some value ↔ PutSince read messages value := by
  obtain ⟨hnone, hsome⟩ := after_spec version read messages
  constructor
  · exact fun h => (hsome value h).1
  intro hput
  cases hafter : after version read messages with
  | none => exact absurd hput (hnone.mp hafter value)
  | some other =>
    obtain ⟨hother, hmax⟩ := hsome other hafter
    obtain ⟨m, hm, hread⟩ := exists_put_of_putSince hother
    obtain ⟨hbelow, hsame⟩ := hle m hm other hread
    rw [hsame (le_antisymm hbelow (hmax value hput))]

end CubeCore.ClearedRegister
