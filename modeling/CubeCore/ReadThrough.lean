import CubeCore.Interleaving

namespace CubeCore.ReadThrough

open Interleaving TransitionSystem

inductive LoadError where
  | context
  | waitersExceeded
  | other (text : String)
deriving DecidableEq

abbrev Result (V : Type) : Type := Except LoadError (Option V)

/-- The store, and the key and the context of each `Get`. -/
structure Env (K : Type) where
  validKey : K → Bool
  hasLocal : Bool
  hasRemote : Bool
  hasLoader : Bool
  loadTimeout : Int
  maxWaitersPerKey : Int
  ignoreRemoteError : Bool
  key : Nat → K
  ctx : Nat → Nat

def Env.maxWaiters {K : Type} (env : Env K) : Int :=
  if env.maxWaitersPerKey ≤ 0 then 256 else env.maxWaitersPerKey

/-- A `readThroughCall` has the number of its leader; `done` is closed when it has a result. -/
structure Shared (K V : Type) where
  calls : K → Option Nat
  waiters : Nat → Nat
  result : Nat → Option (Result V)
  ctxDone : Nat → Bool
  timedOut : Nat → Bool

inductive Stage (V : Type) where
  | remoteGet
  | load
  | remoteSet (value : V)
  | localSet (value : V) (loaded : Bool)
deriving DecidableEq

inductive PC (V : Type) where
  | called
  | localGet
  | enter
  | wait (leader : Nat)
  | lead (stage : Stage V)
  | finish (result : Result V)
  | returned (leader : Option Nat) (result : Result V)
  | unwound (led : Bool)
deriving DecidableEq

/-- A step, an answer or a panic of what was called, the choice of `<-ctx.Done()`, or the end of a
context. -/
inductive Act (V : Type) where
  | run
  | reply (result : Result V)
  | panic
  | giveUp
  | timeout
  | cancel (ctx : Nat)

variable {K V : Type} (env : Env K)

def setLocal (value : V) (loaded : Bool) : PC V :=
  if env.hasLocal then .lead (.localSet value loaded) else .finish (.ok (some value))

def askLoader : PC V := if env.hasLoader then .lead .load else .finish (.ok none)

/-- `loadOne`, cut at the calls it makes. -/
def loadOne : Stage V → Result V → PC V
  | .remoteGet, .error err => if env.ignoreRemoteError then askLoader env else .finish (.error err)
  | .remoteGet, .ok (some value) => setLocal env value false
  | .remoteGet, .ok none => askLoader env
  | .load, .ok (some value) =>
    if env.hasRemote then .lead (.remoteSet value) else setLocal env value true
  | .load, result => .finish result
  | .remoteSet value, .error err =>
    if env.ignoreRemoteError then setLocal env value true else .finish (.error err)
  | .remoteSet value, .ok _ => setLocal env value true
  | .localSet _ true, .error err => .finish (.error err)
  | .localSet value _, _ => .finish (.ok (some value))

def step [DecidableEq K] (g : Nat) (s : Shared K V) : PC V → Act V → Option (Shared K V × PC V)
  | pc, .cancel ctx => some ({ s with ctxDone := Function.update s.ctxDone ctx true }, pc)
  | .called, .run =>
    some (s, if !env.validKey (env.key g) then .returned none (.ok none)
      else if env.hasLocal then .localGet else .enter)
  | .localGet, .reply (.ok none) => some (s, .enter)
  | .localGet, .reply result => some (s, .returned none result)
  | .localGet, .panic => some (s, .unwound false)
  | .enter, .run =>
    match s.calls (env.key g) with
    | some l =>
      if env.maxWaiters ≤ s.waiters l then
        some (s, .returned none (.error .waitersExceeded))
      else some ({ s with waiters := Function.update s.waiters l (s.waiters l + 1) }, .wait l)
    | none =>
      some ({ s with calls := Function.update s.calls (env.key g) (some g) },
        if env.hasRemote then .lead .remoteGet else askLoader env)
  | .wait l, .run => (s.result l).map fun result => (s, .returned (some l) result)
  | .wait l, .giveUp =>
    if s.ctxDone (env.ctx g) then some (s, .returned (some l) (.error .context)) else none
  | .lead stage, .reply result => some (s, loadOne env stage result)
  | .lead stage, .timeout =>
    if 0 < env.loadTimeout then
      some ({ s with timedOut := Function.update s.timedOut g true }, .lead stage)
    else none
  | .lead _, .panic => some (s, .unwound true)
  | .finish result, .run =>
    some ({ s with
        calls := Function.update s.calls (env.key g) none
        result := Function.update s.result g (some result) },
      .returned (some g) result)
  | _, _ => none

abbrev State (K V : Type) : Type := Threads (Shared K V) (PC V)

def next [DecidableEq K] : State K V → Nat × Act V → Option (State K V) :=
  Interleaving.next (step env)

def start : State K V :=
  ⟨⟨fun _ => none, fun _ => 0, fun _ => none, fun _ => false, fun _ => false⟩, fun _ => .called⟩

/-- The context that `g` gives to its load is done. -/
def cut (s : Shared K V) (g : Nat) : Bool := s.ctxDone (env.ctx g) || s.timedOut g

/-- A context error is only returned if the context that was given is done. -/
def lawful (s : State K V) : Nat × Act V → Bool
  | (g, .reply (.error .context)) =>
    match s.pc g with
    | .lead _ => cut env s.shared g
    | _ => s.shared.ctxDone (env.ctx g)
  | _ => true

def leads : PC V → Bool
  | .lead _ | .finish _ | .unwound true => true
  | _ => false

/-- `law` says that the stores and the loader are lawful. -/
def Ok (law : Prop) (s : Shared K V) : Prop :=
  law → ∀ g, s.result g = some (.error .context) → cut env s g = true

structure Knows (law : Prop) (g : Nat) (s : Shared K V) (pc : PC V) : Prop where
  calls : ∀ key, s.calls key = some g ↔ leads pc = true ∧ key = env.key g
  wait : ∀ l, pc = .wait l → s.calls (env.key g) = some l ∨ s.result l ≠ none
  finish : law → pc = .finish (.error .context) → cut env s g = true
  returned : law → ∀ leader, pc = .returned leader (.error .context) →
    s.ctxDone (env.ctx g) = true ∨ ∃ l ∈ leader, cut env s l = true

variable {env} {law : Prop} {g : Nat} {s s' : Shared K V} {pc pc' : PC V} {a : Act V}

theorem Knows.evolves (h : Knows env law g s pc)
    (hcalls : ∀ key, s'.calls key = some g ↔ s.calls key = some g)
    (hwait : ∀ key l, s.calls key = some l ∨ s.result l ≠ none →
      s'.calls key = some l ∨ s'.result l ≠ none)
    (hctx : ∀ ctx, s.ctxDone ctx = true → s'.ctxDone ctx = true)
    (hcut : ∀ l, cut env s l = true → cut env s' l = true) : Knows env law g s' pc where
  calls key := (hcalls key).trans (h.calls key)
  wait l heq := hwait _ l (h.wait l heq)
  finish hlaw heq := hcut g (h.finish hlaw heq)
  returned hlaw leader heq :=
    (h.returned hlaw leader heq).imp (hctx _) fun ⟨l, hl, h⟩ => ⟨l, hl, hcut l h⟩

theorem keeps_same (hok : Ok env law s) (hown : Knows env law g s pc) :
    Keeps (Ok env law) (Knows env law) g s s pc :=
  ⟨hok, hown, fun _ _ _ h => h⟩

theorem keeps_done (hok : Ok env law s) (hknows : Knows env law g s pc)
    (hctx : ∀ ctx, s.ctxDone ctx = true → ctxDone ctx = true)
    (hcut : ∀ l, cut env s l = true → cut env { s with ctxDone, timedOut } l = true) :
    Keeps (Ok env law) (Knows env law) g s { s with ctxDone, timedOut } pc where
  shared hlaw l heq := hcut l (hok hlaw l heq)
  own := hknows.evolves (fun _ => .rfl) (fun _ _ => id) hctx hcut
  other _ _ _ h := h.evolves (fun _ => .rfl) (fun _ _ => id) hctx hcut

theorem loadOne_leads (stage : Stage V) (result : Result V) :
    leads (loadOne env stage result) = true := by
  fun_cases loadOne env stage result <;> grind [askLoader, setLocal, leads]

theorem loadOne_context (h : loadOne env stage result = .finish (.error .context)) :
    result = .error .context := by
  fun_cases loadOne env stage result <;> grind [loadOne, askLoader, setLocal]

variable [DecidableEq K]

theorem keeps_step (hok : Ok env law s) (hknows : Knows env law g s pc)
    (hlaw : law → a = .reply (.error .context) →
      cut env s g = true ∧ (leads pc = false → s.ctxDone (env.ctx g) = true))
    (hstep : step env g s pc a = some (s', pc')) :
    Keeps (Ok env law) (Knows env law) g s s' pc' := by
  obtain ⟨hcalls, hwait, hfinish, hreturned⟩ := id hknows
  unfold step at hstep
  split at hstep
  case h_1 ctx =>
    cases hstep
    exact keeps_done hok hknows (by grind) (by grind [cut])
  case h_6 =>
    split at hstep
    · split at hstep <;> cases hstep
      · exact keeps_same hok ⟨by grind [leads], by grind, by grind, by grind⟩
      · exact ⟨hok, ⟨by grind [leads], by grind, by grind, by grind⟩,
          fun _ _ _ h => h.evolves (fun _ => .rfl) (fun _ _ => id) (fun _ => id) (fun _ => id)⟩
    · cases hstep
      refine ⟨hok, ⟨?_, ?_, ?_, ?_⟩, fun g' _ hne h => h.evolves ?_ ?_ (fun _ => id) (fun _ => id)⟩
      all_goals grind [leads, askLoader]
  case h_7 l =>
    obtain ⟨result, hresult, heq⟩ := Option.map_eq_some_iff.mp hstep
    cases heq
    exact keeps_same hok ⟨by grind [leads], by grind, by grind, by grind [Ok]⟩
  case h_10 =>
    split at hstep <;> cases hstep
    exact keeps_done hok hknows (fun _ => id) (by grind [cut])
  case h_12 result =>
    cases hstep
    refine ⟨?_, ⟨?_, ?_, ?_, fun hl _ heq => ?_⟩,
      fun g' _ hne h => h.evolves ?_ ?_ (fun _ => id) (fun _ => id)⟩
    case refine_5 =>
      cases heq
      exact .inr ⟨g, rfl, hfinish hl rfl⟩
    all_goals grind [leads, Ok, cut]
  -- the other steps leave the shared state as it is
  all_goals try split at hstep
  all_goals cases hstep
  all_goals refine keeps_same hok ⟨?_, ?_, ?_, ?_⟩
  all_goals grind [leads, loadOne_leads, loadOne_context]

theorem holds_of_reach {guard} {s : State K V} (h : Reach (next env) (· = start) guard s)
    (hlaw : law → ∀ s l, guard s l → lawful env s l = true) :
    Holds (Ok env law) (Knows env law) s := by
  refine Holds.of_reach h ?_ ?_
  · rintro s rfl
    exact ⟨by simp [start, Ok], fun g => by constructor <;> simp [start, leads]⟩
  rintro s g a e p hinv hguard hstep
  refine keeps_step hinv.shared (hinv.knows g) ?_ hstep
  rintro hl rfl
  grind [lawful, leads, cut]

/-- Once a `Get` has returned, its call is not registered and its followers are released. -/
theorem ended_load_released {s : State K V} {g : Nat} {leader : Option Nat}
    {result : Result V} (h : Reach (next env) (· = start) anyStep s)
    (hended : s.pc g = .returned leader result ∨ s.pc g = .unwound false) :
    (∀ key, s.shared.calls key ≠ some g) ∧
    ∀ g', s.pc g' = .wait g → (s.shared.result g).isSome = true := by
  have hinv : Holds (Ok env False) (Knows env False) s := holds_of_reach h False.elim
  have hnone : ∀ key, s.shared.calls key ≠ some g := by
    intro key hkey
    have hleads := ((hinv.knows g).calls key).mp hkey
    rcases hended with hpc | hpc <;> simp [hpc, leads] at hleads
  refine ⟨hnone, fun g' hpc => ?_⟩
  exact Option.isSome_iff_ne_none.mpr (((hinv.knows g').wait g hpc).resolve_left (hnone _))

/-- A store with a loader only, whose `Get`s ask for the key 7. -/
def loaderOnly : Env Nat where
  validKey _ := true
  hasLocal := false
  hasRemote := false
  hasLoader := true
  loadTimeout := 0
  maxWaitersPerKey := 0
  ignoreRemoteError := false
  key _ := 7
  ctx g := g

/-- `Get` 1 follows the load of `Get` 0. -/
def follow (last : List (Nat × Act Nat)) : List (Nat × Act Nat) :=
  [(0, .run), (0, .run), (1, .run), (1, .run)] ++ last

theorem ended_load_released_loaded : ∃ s : State Nat Nat, s.pc 1 = .wait 0 ∧
    (∀ key, s.shared.calls key ≠ some 0) ∧ (s.shared.result 0).isSome = true := by
  obtain ⟨s, hreach, hpc, hwait⟩ : ∃ s, Reach (next loaderOnly) (· = start) anyStep s ∧
      s.pc 0 = .returned (some 0) (.ok (some 5)) ∧ s.pc 1 = .wait 0 :=
    exists_of_anyRun rfl (follow [(0, .reply (.ok (some 5))), (0, .run)]) (by decide)
  obtain ⟨hcalls, hreleased⟩ := ended_load_released hreach (.inl hpc)
  exact ⟨s, hwait, hcalls, hreleased 1 hwait⟩

/-- The loader panics: the key keeps its call, and the follower waits for it. -/
theorem panic_leaves_call : ∃ s : State Nat Nat, Reach (next loaderOnly) (· = start) anyStep s ∧
    s.pc 0 = .unwound true ∧ s.shared.calls 7 = some 0 ∧ s.pc 1 = .wait 0 ∧
    s.shared.result 0 = none :=
  exists_of_anyRun rfl (follow [(0, .panic)]) (by decide)

/-- A `Get` whose context is not done gets no context error from a load that was not cut. -/
theorem no_foreign_context_error {s : State K V} {g : Nat} {leader : Option Nat} {result : Result V}
    (h : Reach (next env) (· = start) (fun s l => lawful env s l) s)
    (hpc : s.pc g = .returned leader result) (hown : s.shared.ctxDone (env.ctx g) = false)
    (hload : ∀ l ∈ leader, cut env s.shared l = false) : result ≠ .error .context := by
  rintro rfl
  have hinv : Holds (Ok env True) (Knows env True) s := holds_of_reach h fun _ _ _ hguard => hguard
  rcases (hinv.knows g).returned trivial leader hpc with hdone | ⟨l, hl, hcut⟩
  · simp [hown] at hdone
  · simp [hload l hl] at hcut

theorem no_foreign_context_error_loaded : ∃ s : State Nat Nat,
    s.pc 1 = .returned (some 0) (.error (.other "down")) ∧
    (.error (.other "down") : Result Nat) ≠ .error .context := by
  obtain ⟨s, hreach, hpc, hown, hcut⟩ : ∃ s,
      Reach (next loaderOnly) (· = start) (fun s l => lawful loaderOnly s l) s ∧
      s.pc 1 = .returned (some 0) (.error (.other "down")) ∧ s.shared.ctxDone 1 = false ∧
      cut loaderOnly s.shared 0 = false :=
    exists_of_run rfl (lawful loaderOnly)
      (follow [(0, .reply (.error (.other "down"))), (0, .run), (1, .run)])
      (fun _ _ _ h => h) (by decide)
  exact ⟨s, hpc, no_foreign_context_error hreach hpc hown (by simpa using hcut)⟩

/-- The leader's context is cancelled, and the follower returns the context error. -/
theorem follower_gets_context_error : ∃ s : State Nat Nat,
    Reach (next loaderOnly) (· = start) (fun s l => lawful loaderOnly s l) s ∧
    s.pc 1 = .returned (some 0) (.error .context) ∧ s.shared.ctxDone 1 = false ∧
    s.shared.timedOut 0 = false :=
  exists_of_run rfl (lawful loaderOnly)
    (follow [(0, .cancel 0), (0, .reply (.error .context)), (0, .run), (1, .run)])
    (fun _ _ _ h => h) (by decide)

end CubeCore.ReadThrough
