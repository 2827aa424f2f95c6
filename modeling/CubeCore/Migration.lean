import Mathlib.Data.Nat.Basic
import Mathlib.Order.Basic
import Mathlib.Tactic.SplitIfs

namespace CubeCore.Migration

variable {E : Type}

structure DAOStep (E : Type) where
  collection : String
  name : String
  fromVersion : Nat
  toVersion : Nat
  apply : List UInt8 → Except E (List UInt8)

structure DAORegistry (E : Type) where
  daoStep : String → Nat → Option (DAOStep E)
  raises : ∀ {collection cur step}, daoStep collection cur = some step → cur < step.toVersion

inductive MigrationError (E : Type)
  | stepInvalid (detail : String)
  | pathMissing (detail : String)
  | apply (name : String) (err : E)

namespace DAORegistry

variable (r : DAORegistry E)

def registerDAO (step : DAOStep E) : Except (MigrationError E) (DAORegistry E) :=
  if step.collection = "" then .error (.stepInvalid "dao collection empty")
  else if h : step.toVersion ≤ step.fromVersion then
    .error (.stepInvalid s!"invalid dao version {step.fromVersion} -> {step.toVersion}")
  else if (r.daoStep step.collection step.fromVersion).isSome then
    .error (.stepInvalid s!"duplicate dao step {step.collection} from {step.fromVersion}")
  else
    let name := if step.name ≠ "" then step.name
      else s!"{step.collection}_{step.fromVersion}_to_{step.toVersion}"
    .ok {
      daoStep := fun collection cur =>
        if collection = step.collection ∧ cur = step.fromVersion then some { step with name }
        else r.daoStep collection cur
      raises := by
        intro collection cur found hfound
        split_ifs at hfound with hstep
        · obtain ⟨-, rfl⟩ := hstep
          cases hfound
          exact not_le.mp h
        · exact r.raises hfound }

variable (collection : String)

/-- The loop of `MigrateDAO`; an error comes with the version reached. -/
def migrate (target cur : Nat) (out : List UInt8) :
    Except (MigrationError E × Nat) (List UInt8 × Nat) :=
  if cur < target then
    match _h : r.daoStep collection cur with
    | none => .error (.pathMissing s!"dao {collection} {cur} -> {target}", cur)
    | some step =>
      if target < step.toVersion then
        .error (.pathMissing s!"dao step {step.name} overshoots target {target}", cur)
      else match step.apply out with
        | .error err => .error (.apply step.name err, cur)
        | .ok next => migrate target step.toVersion next
  else .ok (out, cur)
termination_by target - cur
decreasing_by
  have := r.raises _h
  omega

def migrateDAO (raw : List UInt8) (a target : Nat) :
    Except (MigrationError E × Nat) (List UInt8 × Nat) :=
  if collection = "" then .error (.stepInvalid "dao collection empty", a)
  else if target < a then .error (.stepInvalid s!"dao downgrade {a} -> {target}", a)
  else r.migrate collection target a raw

/-- Registered steps, each leading on from the last and applied with success. -/
inductive Chain : Nat → List UInt8 → Nat → List UInt8 → Prop
  | refl (cur out) : Chain cur out cur out
  | step {cur out step next target last} (hstep : r.daoStep collection cur = some step)
      (happly : step.apply out = .ok next) (rest : Chain step.toVersion next target last) :
      Chain cur out target last

/-- No step leads on from this version to one up to the target. -/
def Stuck (target cur : Nat) (out : List UInt8) : Prop :=
  ∀ step, r.daoStep collection cur = some step →
    target < step.toVersion ∨ ∃ err, step.apply out = .error err

variable {r collection} {cur target goal : Nat} {out last : List UInt8}

theorem Chain.le (h : r.Chain collection cur out target last) : cur ≤ target := by
  induction h with
  | refl => exact le_rfl
  | step hstep _ _ ih => exact (r.raises hstep).le.trans ih

theorem Chain.migrate_eq (h : r.Chain collection cur out target last) (hle : target ≤ goal) :
    r.migrate collection goal cur out = r.migrate collection goal target last := by
  induction h with
  | refl => rfl
  | step hstep happly rest ih =>
    have hto := rest.le.trans hle
    rw [migrate, if_pos ((r.raises hstep).trans_le hto)]
    split
    · simp_all
    · rename_i hfound
      cases hstep.symm.trans hfound
      rw [if_neg hto.not_gt, happly]
      exact ih hle

variable (r collection out) in
theorem migrate_spec (hle : cur ≤ target) :
    match r.migrate collection target cur out with
    | .ok (last, v) => v = target ∧ r.Chain collection cur out target last
    | .error (_, v) => v < target ∧
        ∃ last, r.Chain collection cur out v last ∧ r.Stuck collection target v last := by
  fun_induction migrate r collection target cur out with
  | case1 cur out hlt hnone => exact ⟨hlt, out, .refl cur out, by simp [Stuck, hnone]⟩
  | case2 cur out hlt step hstep hover =>
    exact ⟨hlt, out, .refl cur out, by simp [Stuck, hstep, hover]⟩
  | case3 cur out hlt step hstep _ err herr =>
    exact ⟨hlt, out, .refl cur out, by simp [Stuck, hstep, herr]⟩
  | case4 cur out hlt step hstep hover next hnext ih =>
    have hspec := ih (not_lt.mp hover)
    split at hspec
    · exact ⟨hspec.1, .step hstep hnext hspec.2⟩
    · obtain ⟨hv, last, hchain, hstuck⟩ := hspec
      exact ⟨hv, last, .step hstep hnext hchain, hstuck⟩
  | case5 cur out hlt =>
    cases hle.antisymm (not_lt.mp hlt)
    exact ⟨rfl, .refl _ _⟩

theorem migrateDAO_of_le (hcollection : collection ≠ "") (hle : cur ≤ target) :
    r.migrateDAO collection out cur target = r.migrate collection target cur out := by
  rw [migrateDAO, if_neg hcollection, if_neg hle.not_gt]

theorem migrateDAO_eq_ok {v : Nat} :
    r.migrateDAO collection out cur target = .ok (last, v) ↔
    collection ≠ "" ∧ v = target ∧ r.Chain collection cur out target last := by
  constructor
  · intro h
    rw [migrateDAO] at h
    split_ifs at h with hcollection hlt
    have hspec := migrate_spec r collection out (not_lt.mp hlt)
    rw [h] at hspec
    exact ⟨hcollection, hspec⟩
  · rintro ⟨hcollection, rfl, hchain⟩
    rw [migrateDAO_of_le hcollection hchain.le, hchain.migrate_eq le_rfl, migrate,
      if_neg (lt_irrefl _)]

/-- Two migrations in a row are one; a migration succeeds when the chain of steps meets the
target. -/
theorem migrateDAO_follows_chain (r : DAORegistry E) (collection : String) (raw : List UInt8)
    (a c : Nat) :
    (∀ b out v, b ≤ c → r.migrateDAO collection raw a b = .ok (out, v) →
      r.migrateDAO collection raw a c = r.migrateDAO collection out b c) ∧
    (∀ out v, r.migrateDAO collection raw a c = .ok (out, v) ↔
      collection ≠ "" ∧ v = c ∧ r.Chain collection a raw c out) ∧
    (∀ err v, r.migrateDAO collection raw a c = .error (err, v) →
      v = a ∧ (collection = "" ∨ c < a) ∨
      v < c ∧ ∃ out, r.Chain collection a raw v out ∧ r.Stuck collection c v out) := by
  refine ⟨?_, fun _ _ => migrateDAO_eq_ok, ?_⟩
  · intro b out v hle h
    obtain ⟨hcollection, -, hchain⟩ := migrateDAO_eq_ok.mp h
    rw [migrateDAO_of_le hcollection (hchain.le.trans hle), migrateDAO_of_le hcollection hle]
    exact hchain.migrate_eq hle
  · intro err v h
    rw [migrateDAO] at h
    split_ifs at h with hcollection hlt
    · cases h
      exact .inl ⟨rfl, .inl hcollection⟩
    · cases h
      exact .inl ⟨rfl, .inr hlt⟩
    · have hspec := migrate_spec r collection raw (not_lt.mp hlt)
      rw [h] at hspec
      exact .inr hspec

def twoSteps : DAORegistry String where
  daoStep collection cur :=
    if cur < 2 then some ⟨collection, "", cur, cur + 1, fun out => .ok (cur.toUInt8 :: out)⟩
    else none
  raises := by
    intro collection cur step hstep
    split_ifs at hstep
    cases hstep
    exact Nat.lt_succ_self cur

theorem migrateDAO_follows_chain_two : twoSteps.migrateDAO "hero" [] 0 1 = .ok ([0], 1) ∧
    twoSteps.migrateDAO "hero" [] 0 2 = twoSteps.migrateDAO "hero" [0] 1 2 := by
  have hfirst : twoSteps.migrateDAO "hero" [] 0 1 = .ok ([0], 1) :=
    ((migrateDAO_follows_chain ..).2.1 _ _).mpr ⟨by decide, rfl, .step rfl rfl (.refl 1 _)⟩
  exact ⟨hfirst, (migrateDAO_follows_chain ..).1 1 [0] 1 (by decide) hfirst⟩

/-- The chain of no steps meets its target under any name, the empty one too. -/
theorem empty_collection_refused : ∃ r : DAORegistry String,
    r.Chain "" 0 [] 0 [] ∧ ∀ out v, r.migrateDAO "" [] 0 0 ≠ .ok (out, v) :=
  ⟨⟨fun _ _ => none, by simp⟩, .refl 0 [], by simp [migrateDAO]⟩

end DAORegistry

end CubeCore.Migration
