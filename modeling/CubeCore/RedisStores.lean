import CubeCore.Interleaving
import Mathlib.Order.Lattice

namespace CubeCore.RedisStores

open Function Interleaving TransitionSystem

abbrev Redis (K H : Type) : Type := K → Option H

def exec {K H : Type} (redis : Redis K H) (commands : List (Redis K H → Redis K H)) : Redis K H :=
  commands.foldl (fun redis command => command redis) redis

/-- The Redis keys that `Get` reads, one command each, and the commands that write a value. -/
structure Store (K H V : Type) where
  keys : List K
  decode : List (Option H) → Option V
  write : V → List (Redis K H → Redis K H)
  decode_write : ∀ value redis, decode (keys.map (exec redis (write value))) = some value

variable {K H V N : Type}

section Stores

variable [DecidableEq K]

def redisJSONStore (key : K) (marshal : V → H) (unmarshal : H → Option V)
    (h : ∀ value, unmarshal (marshal value) = some value) : Store K H V where
  keys := [key]
  decode raws := raws.head?.join.bind unmarshal
  write value := [fun redis => update redis key (some (marshal value))]
  decode_write := by simp [exec, h]

/-- The field of a hash takes the place of the key. -/
def redisJSONHashStore (key field : K) (marshal : V → H) (unmarshal : H → Option V)
    (h : ∀ value, unmarshal (marshal value) = some value) : Store (K × K) H V :=
  redisJSONStore (key, field) marshal unmarshal h

/-- `HSET` of a hash, whose fields `merge` adds to the old ones; a nil struct has no hash. -/
def hset (merge : H → H → H) (hashes : K → Option H) (key : K) (redis : Redis K H) : Redis K H :=
  fun key' =>
    match redis key', if key' = key then hashes key else none with
    | some old, some hash => some (merge old hash)
    | old, hash => hash.or old

/-- `evalWriteHashes`, and what it does when `Eval` fails. -/
def evalWriteHashes (keys : List K) (merge : H → H → H) (hashes : K → Option H)
    (evalFails : Bool) : List (Redis K H → Redis K H) :=
  if evalFails then
    (fun redis key => if key ∈ keys then none else redis key) :: keys.map (hset merge hashes)
  else [fun redis key => if key ∈ keys then hashes key else redis key]

theorem exec_hset {key : K} (merge : H → H → H) (hashes : K → Option H) {todo : List K}
    (htodo : todo.Nodup) (redis : Redis K H) (hempty : key ∈ todo → redis key = none) :
    exec redis (todo.map (hset merge hashes)) key =
      if key ∈ todo then hashes key else redis key := by
  induction todo generalizing redis with
  | nil => rfl
  | cons first todo ih =>
    obtain ⟨hfirst, htodo⟩ := List.nodup_cons.mp htodo
    refine (ih htodo (hset merge hashes first redis) ?_).trans ?_ <;> grind [hset]

/-- The hashes of the nodes of a plan; `HGET` of the registry comes before the writes. -/
def redisRefHMapStore (keys : List K) (merge : H → H → H) (encode : V → K → Option H)
    (decode : List (Option H) → Option V) (evalFails : Bool) (hkeys : keys.Nodup)
    (h : ∀ value, decode (keys.map (encode value)) = some value) : Store K H V where
  keys := keys
  decode := decode
  write value := id :: evalWriteHashes keys merge (encode value) evalFails
  decode_write value redis := by
    refine (congrArg decode (List.map_congr_left fun key hkey => ?_)).trans (h value)
    cases evalFails with
    | false => simp [exec, evalWriteHashes, hkey]
    | true => exact (exec_hset merge _ hkeys _ (by simp +contextual)).trans (if_pos hkey)

end Stores

inductive PC (K H : Type) where
  | called
  | read (keys : List K) (raws : List (Option H))
  | write (commands : List (Redis K H → Redis K H))
  | returned

/-- The `Set` calls, by any processes, of the values of one key. -/
structure Calls (K H V N : Type) where
  store : Store K H V
  value : Nat → V
  version : V → N

variable [LinearOrder N] (c : Calls K H V N) (g : Nat)

def Calls.stale (old next : V) : Bool := c.version next < c.version old

/-- What `Set` writes for the old value that it has read. -/
def commands (raws : List (Option H)) : List (Redis K H → Redis K H) :=
  if (c.store.decode raws).any (c.stale · (c.value g)) then [] else c.store.write (c.value g)

/-- The next command of the `Set` numbered `g`. -/
def step (redis : Redis K H) : PC K H → Unit → Option (Redis K H × PC K H)
  | .called, _ => some (redis, .read c.store.keys [])
  | .read (key :: keys) raws, _ => some (redis, .read keys (raws ++ [redis key]))
  | .read [] raws, _ => some (redis, .write (commands c g raws))
  | .write (command :: todo), _ => some (command redis, .write todo)
  | .write [], _ => some (redis, .returned)
  | .returned, _ => none

abbrev State (K H : Type) : Type := Threads (Redis K H) (PC K H)

def next : State K H → Nat × Unit → Option (State K H) := Interleaving.next (step c)

def Initial (s : State K H) : Prop := ∀ g, s.pc g = .called

def resting : PC K H → Bool
  | .called | .returned => true
  | _ => false

/-- The other calls have not begun or have returned. -/
def alone (s : State K H) (l : Nat × Unit) : Prop := ∀ g, g ≠ l.1 → resting (s.pc g) = true

/-- Something is stored for which the value of `g` is not newer. -/
def Covers (redis : Redis K H) : Prop :=
  ∃ x, c.store.decode (c.store.keys.map redis) = some x ∧ c.stale (c.value g) x = false

/-- What `g` leaves when it runs to its end alone. -/
def finish (redis : Redis K H) : PC K H → Redis K H
  | .called => exec redis (commands c g (c.store.keys.map redis))
  | .read keys raws => exec redis (commands c g (raws ++ keys.map redis))
  | .write todo => exec redis todo
  | .returned => redis

variable {c g} {s s' : State K H} {l : Nat × Unit} {redis redis' : Redis K H} {pc pc' : PC K H}

theorem step_alone {a : Unit} (h : step c g redis pc a = some (redis', pc')) :
    finish c g redis' pc' = finish c g redis pc ∧ pc' ≠ .called := by
  fun_cases step c g redis pc a <;> simp only [step] at h <;> cases h <;> simp [finish, exec]

theorem covers_set {g' : Nat} (h : Covers c g' redis ∨ g' = g) :
    Covers c g' (finish c g redis .called) := by
  simp only [finish, commands]
  split
  · rename_i hstale
    rcases h with h | rfl
    · exact h
    cases hx : c.store.decode (c.store.keys.map redis) with
    | none => simp [hx] at hstale
    | some x =>
      refine ⟨x, hx, decide_eq_false ?_⟩
      have : c.version (c.value g') < c.version x := by simpa [hx, Calls.stale] using hstale
      exact this.not_gt
  · rename_i hfresh
    refine ⟨_, c.store.decode_write _ _, decide_eq_false ?_⟩
    rcases h with ⟨x, hx, hold⟩ | rfl
    · simp [hx, Calls.stale] at hfresh hold
      exact (hold.trans hfresh).not_gt
    · exact lt_irrefl _

/-- Whoever runs to its end alone leaves a value that covers those set before and its own. -/
def Inv (c : Calls K H V N) (s : State K H) : Prop :=
  ∀ g g', alone s (g, ()) → s.pc g' = .returned ∨ g' = g →
    Covers c g' (finish c g s.shared (s.pc g))

theorem inv_next (h : Inv c s) (halone : alone s l) (hnext : next c s l = some s') : Inv c s' := by
  obtain ⟨g, _⟩ := l
  obtain ⟨redis, pc, hstep, rfl⟩ := next_eq_some hnext
  obtain ⟨hfinish, hcalled⟩ := step_alone hstep
  intro g₁ g₂ halone₁ hg₂
  have hcovers : ∀ g', s.pc g' = .returned ∨ g' = g → Covers c g' (finish c g redis pc) := by
    rw [hfinish]
    exact fun g' => h g g' halone
  rcases eq_or_ne g₁ g with rfl | hne
  · simp only [update_self]
    refine hcovers g₂ ?_
    grind
  -- `g` has returned, and the other one is where it was
  have hpc : pc = .returned := by
    have := halone₁ g hne.symm
    cases pc <;> simp_all [resting]
  simp only [update_of_ne hne] at hg₂ ⊢
  have hrest := halone g₁ hne
  cases hpc₁ : s.pc g₁ with
  | called =>
    refine covers_set ?_
    grind [finish]
  | returned =>
    grind [finish]
  | read | write => simp [hpc₁, resting] at hrest

/-- `Set`s that do not overlap leave a value that none of those set is newer than. -/
theorem stored_not_stale (h : Reach (next c) Initial alone s)
    (hdone : ∀ g, resting (s.pc g) = true) (hg : s.pc g = .returned) : Covers c g s.shared := by
  have hinv : Inv c s := by
    refine h.invariant ?_ fun s l s' => inv_next
    intro s hs g g' _ hg'
    rw [hs g]
    refine covers_set (.inr (hg'.resolve_left ?_))
    simp [hs g']
  simpa [finish, hg] using hinv g g (fun g' _ => hdone g') (.inr rfl)

/-- The version 2 is set by call 0, and the version 1 by the others. -/
def twoVersions : Calls Nat Nat Nat Nat :=
  ⟨redisJSONStore 7 id some fun _ => rfl, fun g => if g = 0 then 2 else 1, id⟩

theorem reach_solo (n : Nat) (h : Reach (next c) Initial alone s) (halone : alone s (g, ()))
    (hrun : run (next c) s (List.replicate n (g, ())) = some s')
    (hreturned : s'.pc g = .returned) :
    Reach (next c) Initial alone s' ∧ ∀ g', resting (s'.pc g') = true := by
  induction n generalizing s with
  | zero =>
    cases hrun
    refine ⟨h, fun g' => ?_⟩
    rcases eq_or_ne g' g with rfl | hg'
    · rw [hreturned]
      rfl
    · exact halone g' hg'
  | succ n ih =>
    obtain ⟨t, hnext, hrest⟩ := Option.bind_eq_some_iff.mp hrun
    refine ih (.step h halone hnext) (fun g' hg' => ?_) hrest
    obtain ⟨redis, pc, -, rfl⟩ := next_eq_some hnext
    exact (congrArg resting (update_of_ne hg' ..)).trans (halone g' hg')

theorem stored_not_stale_older : ∃ s, Reach (next twoVersions) Initial alone s ∧
    s.pc 0 = .returned ∧ s.pc 1 = .returned ∧ s.shared 7 = some 2 ∧
    Covers twoVersions 0 s.shared ∧ Covers twoVersions 1 s.shared := by
  have hfirst : run (next twoVersions) ⟨fun _ => none, fun _ => .called⟩
    (List.replicate 5 (0, ())) = some _ := rfl
  obtain ⟨hreach, hrest⟩ := reach_solo 5 (.start fun _ => rfl) (fun _ _ => rfl) hfirst rfl
  obtain ⟨hreach, hrest⟩ := reach_solo (g := 1) 4 hreach (fun g _ => hrest g) rfl rfl
  exact ⟨_, hreach, rfl, rfl, rfl, stored_not_stale hreach hrest rfl,
    stored_not_stale hreach hrest rfl⟩

/-- Both calls read before one of them writes: the older version is written last. -/
theorem older_overwrites_newer : ∃ s, Reach (next twoVersions) Initial anyStep s ∧
    s.pc 0 = .returned ∧ s.pc 1 = .returned ∧ ¬ Covers twoVersions 0 s.shared := by
  have hrun : run (next twoVersions) ⟨fun _ => none, fun _ => .called⟩
    ([0, 0, 0, 1, 1, 1, 0, 0, 1, 1].map (·, ())) = some _ := rfl
  refine ⟨_, Reach.of_run (.start fun _ => rfl) hrun, rfl, rfl, ?_⟩
  rintro ⟨x, hx, hold⟩
  cases hx
  exact absurd hold (by decide)

end CubeCore.RedisStores
