import CubeCore.AtomicLocal

namespace CubeCore.LocalCache

open AtomicLocal

/-- The store; `order` is the list of `WithLocalMaxEntries`, last used first. -/
structure LocalStore (K V : Type) where
  cfg : StoreConfig K V
  maxEntries : Int
  items : AList fun _ : K => V
  order : Option (List K)

def versionStale {V : Type} (versionOf : Option (V → Int)) (old next : V) : Bool :=
  match versionOf with
  | none => false
  | some versionOf => versionOf next < versionOf old

variable {K V : Type}

/-- `NewLocalStore`, with `WithLocalMaxEntries` where the limit is positive. -/
def newLocalStore (cfg : StoreConfig K V) (maxEntries : Int) : LocalStore K V :=
  if 0 < maxEntries then { cfg, maxEntries, items := ∅, order := some [] }
  else { cfg, maxEntries := 0, items := ∅, order := none }

variable [DecidableEq K] (s : LocalStore K V)

def touchLocked (key : K) : LocalStore K V :=
  { s with order := s.order.map fun order => key :: order.erase key }

/-- The loop of `evictLocked`, which removes a key of the order in each turn. -/
def evictLoop : Nat → LocalStore K V → LocalStore K V
  | 0, s => s
  | fuel + 1, s =>
    if s.maxEntries < s.items.keys.length then
      match s.order.bind List.getLast? with
      | none => s
      | some key =>
        evictLoop fuel
          { s with items := s.items.erase key, order := s.order.map List.dropLast }
    else s

def evictLocked : LocalStore K V :=
  match s.order with
  | none => s
  | some order => if s.maxEntries ≤ 0 then s else evictLoop (order.length + 1) s

def get (key : K) : Option V × LocalStore K V :=
  if s.cfg.validKey key = false then (none, s)
  else
    match s.items.lookup key with
    | none => (none, s)
    | some value => (some value, touchLocked s key)

def set (value : V) : Option CacheError × LocalStore K V :=
  match s.cfg.validateValue.bind fun validate => validate value with
  | some message => (some (.invalidValue message), s)
  | none =>
    match s.cfg.keyOfValue value with
    | .error err => (some err, s)
    | .ok key =>
      if (s.items.lookup key).any fun old => s.cfg.isStale old value then (none, s)
      else
        (none, evictLocked (touchLocked { s with items := s.items.insert key value } key))

def delete (key : K) : LocalStore K V :=
  if s.cfg.validKey key = false then s
  else
    { s with items := s.items.erase key, order := s.order.map fun order => order.erase key }

section Limit

variable {s : LocalStore K V} {value : V} {key : K}

def Within (s : LocalStore K V) : Prop :=
  s.order = none ∨ (s.items.keys.length : Int) ≤ s.maxEntries

theorem evictLocked_of_within (h : Within s) : evictLocked s = s := by
  unfold evictLocked
  split
  · rfl
  rename_i order horder
  have hle : (s.items.keys.length : Int) ≤ s.maxEntries := h.resolve_left (by simp [horder])
  split
  · rfl
  · rw [evictLoop, if_neg (by omega)]

theorem set_of_accepted (hvalue : (s.cfg.validateValue.bind fun validate => validate value) = none)
    (hkey : s.cfg.keyOfValue value = .ok key)
    (hwithin : Within (touchLocked { s with items := s.items.insert key value } key)) :
    (set s value).2.items =
      if (s.items.lookup key).any (fun old => s.cfg.isStale old value) then s.items
      else s.items.insert key value := by
  unfold set
  rw [hvalue, hkey]
  dsimp only
  split
  · rfl
  · rw [evictLocked_of_within hwithin]
    rfl

theorem set_frame (value : V) (hwithin : ∀ key, s.cfg.keyOfValue value = .ok key →
      Within (touchLocked { s with items := s.items.insert key value } key)) :
    (set s value).2.cfg = s.cfg ∧ (set s value).2.maxEntries = s.maxEntries ∧
      ((set s value).2.order = none ↔ s.order = none) := by
  fun_cases set s value with
  | case4 _ key hkey =>
    rw [evictLocked_of_within (hwithin key hkey)]
    exact ⟨rfl, rfl, by simp [touchLocked]⟩
  | _ => exact ⟨rfl, rfl, Iff.rfl⟩

end Limit

end CubeCore.LocalCache
