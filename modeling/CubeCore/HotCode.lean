import CubeCore.Interleaving

namespace CubeCore.HotCode

open Interleaving TransitionSystem Function

structure Meta where
  version : String
  author : String
  reason : String
  source : String
  loadedAt : Option Nat
deriving DecidableEq

def Meta.empty : Meta := ⟨"", "", "", "", none⟩

inductive Error
  | nameRequired
  | funcRequired
  | notFound
  | typeMismatch
deriving DecidableEq

/-- A value with its dynamic type; `isFunc` is its kind. -/
structure Value where
  fnType : Nat
  isFunc : Bool
  code : Nat
deriving DecidableEq

/-- `calls` are the function and the meta data of the calls that have stored, `succeeded` how many
returned nil. -/
structure Point where
  name : String
  original : Value
  current : Value
  info : Meta
  gen : UInt64
  calls : List (Value × Meta)
  succeeded : Nat

inductive Request
  | replace (name : String) (fn : Option Value) (info : Meta)
  | revert (name : String)

variable (p : Point) (now : Nat)

/-- The checks of a call, and what it is going to store. -/
def check : Request → Except Error (Value × Meta)
  | .replace name fn info =>
    if name = "" then .error .nameRequired
    else match fn with
      | none => .error .funcRequired
      | some fn =>
        if fn.isFunc = false then .error .funcRequired
        else if name ≠ p.name then .error .notFound
        else if fn.fnType ≠ p.original.fnType then .error .typeMismatch
        else .ok (fn, { info with loadedAt := info.loadedAt.or (some now) })
  | .revert name => if name ≠ p.name then .error .notFound else .ok (p.original, .empty)

inductive PC
  | idle
  | current (call : Value × Meta)
  | info (call : Value × Meta)
  | gen
deriving DecidableEq

inductive Act
  | call (request : Request) (now : Nat)
  | run

def step (_ : Nat) (p : Point) : PC → Act → Option (Point × PC)
  | .idle, .call request now =>
    match check p now request with
    | .ok call => some (p, .current call)
    | .error _ => some (p, .idle)
  | .current call, .run => some ({ p with current := call.1, calls := call :: p.calls }, .info call)
  | .info call, .run => some ({ p with info := call.2 }, .gen)
  | .gen, .run => some ({ p with gen := p.gen + 1, succeeded := p.succeeded + 1 }, .idle)
  | _, _ => none

def register (name : String) (fn : Value) : Point := ⟨name, fn, fn, .empty, 0, [], 0⟩

def start (name : String) (fn : Value) : Threads Point PC := ⟨register name fn, fun _ => .idle⟩

def last : Value × Meta := p.calls.headD (p.original, .empty)

/-- No call stores its function while another is between its two stores. -/
def apart (s : Threads Point PC) (l : Nat × Act) : Prop :=
  (∃ call, s.pc l.1 = .current call) → ∀ g call, s.pc g ≠ .info call

/-- Who is between its two stores is the last call. -/
structure Inv (s : Threads Point PC) : Prop where
  current : s.shared.current = (last s.shared).1
  between : ∀ g call, s.pc g = .info call →
    call = last s.shared ∧ ∀ g' call', s.pc g' = .info call' → g' = g
  info : (∀ g call, s.pc g ≠ .info call) → s.shared.info = (last s.shared).2

variable {s s' : Threads Point PC} {l : Nat × Act}

theorem Inv.other {g : Nat} {pc : PC} (h : Inv s) (hold : ∀ call, s.pc g ≠ .info call)
    (hnew : ∀ call, pc ≠ .info call) (gen : UInt64) (succeeded : Nat) :
    Inv ⟨{ s.shared with gen, succeeded }, update s.pc g pc⟩ := by
  have hframe : ∀ g' call, update s.pc g pc g' = .info call ↔ s.pc g' = .info call := by
    intro g' call
    rcases eq_or_ne g' g with rfl | hg
    · simp [hold, hnew]
    · simp [hg]
  refine ⟨h.current, ?_, ?_⟩ <;> simp only [ne_eq, hframe]
  exacts [h.between, h.info]

theorem inv_next (hinv : Inv s) (hapart : apart s l) (hnext : next step s l = some s') :
    Inv s' := by
  obtain ⟨g, a⟩ := l
  obtain ⟨e, pc', hstep, rfl⟩ := next_eq_some hnext
  rw [apart] at hapart
  generalize hpc : s.pc g = pc at hstep hapart
  apply of_eq_some (P := fun r => Inv ⟨r.1, update s.pc g r.2⟩) hstep
  fun_cases step g s.shared pc a with
  | case1 | case2 | case5 => exact hinv.other (by simp [hpc]) (by simp) _ _
  | case3 call =>
    have hnone := hapart ⟨call, rfl⟩
    have hown : ∀ g' call', update s.pc g (.info call) g' = .info call' →
        g' = g ∧ call = call' := by
      intro g' call' hg
      by_cases g' = g <;> simp_all
    refine ⟨rfl, fun g' call' hg => ?_, fun hnot => absurd (update_self ..) (hnot g call)⟩
    obtain ⟨rfl, rfl⟩ := hown g' call' hg
    exact ⟨rfl, fun g'' call'' h => (hown g'' call'' h).1⟩
  | case4 call =>
    obtain ⟨rfl, honly⟩ := hinv.between g call hpc
    refine ⟨hinv.current, fun g' call' hg => ?_, fun _ => rfl⟩
    rcases eq_or_ne g' g with rfl | hne
    · simp at hg
    · exact absurd (honly g' call' (by simpa [hne] using hg)) hne
  | case6 => trivial

theorem gen_next (hs : s.shared.gen = .ofNat s.shared.succeeded)
    (hnext : next step s l = some s') : s'.shared.gen = .ofNat s'.shared.succeeded := by
  obtain ⟨g, a⟩ := l
  obtain ⟨e, pc', hstep, rfl⟩ := next_eq_some hnext
  apply of_eq_some (P := fun r => r.1.gen = .ofNat r.1.succeeded) hstep
  fun_cases step g s.shared (s.pc g) a with
  | case1 | case2 | case3 | case4 => exact hs
  | case5 => simp [hs]
  | case6 => trivial

/-- The generation counts the calls that succeeded. Unless calls cross, function and meta data are
of the call that stored last, whenever none is running. -/
theorem replace_consistent (name : String) (fn : Value) :
    (∀ s, Reach (next step) (· = start name fn) anyStep s →
      s.shared.gen = .ofNat s.shared.succeeded) ∧
    (∀ g p request now e, check p now request = .error e →
      step g p .idle (.call request now) = some (p, .idle)) ∧
    ∀ s, Reach (next step) (· = start name fn) apart s → (∀ g, s.pc g = .idle) →
      (s.shared.current, s.shared.info) = last s.shared := by
  refine ⟨fun s hs => ?_, ?_, fun s hs hidle => ?_⟩
  · exact hs.invariant (by rintro _ rfl; rfl) fun _ _ _ h _ => gen_next h
  · intro g p request now e he
    simp [step, he]
  · have hinv : Inv s := by
      refine hs.invariant ?_ fun _ _ _ => inv_next
      rintro _ rfl
      exact ⟨rfl, nofun, fun _ => rfl⟩
    exact Prod.ext hinv.current (hinv.info (by simp [hidle]))

def old : Value := ⟨0, true, 0⟩
def new : Value := ⟨0, true, 1⟩
def note : Meta := ⟨"v1", "", "", "", some 5⟩

theorem replace_consistent_reverted : ∃ s, Reach (next step) (· = start "p" old) apart s ∧
    s.shared.calls = [(old, .empty), (new, note)] ∧ s.shared.gen = 2 ∧
    (s.shared.current, s.shared.info) = (old, .empty) := by
  let guard (s : Threads Point PC) (l : Nat × Act) := apart s l ∧ l.1 < 1
  have hrest {s} (hs : Reach (next step) (· = start "p" old) guard s) :=
    pc_of_bounded hs (n := 1) (p := .idle) (by rintro _ rfl g -; rfl) fun _ _ h => h.2
  obtain ⟨s, hreach, hidle, hcalls, hcount⟩ : ∃ s,
      Reach (next step) (· = start "p" old) guard s ∧ s.pc 0 = .idle ∧
      s.shared.calls = [(old, .empty), (new, note)] ∧ s.shared.succeeded = 2 := by
    refine exists_of_run rfl (fun _ l => l.1 < 1)
      [(0, .call (.replace "p" (some new) note) 0), (0, .run), (0, .run), (0, .run),
        (0, .call (.revert "p") 0), (0, .run), (0, .run), (0, .run)]
      (fun s l hs htest => ⟨?_, of_decide_eq_true htest⟩) (by decide)
    rintro ⟨call, hcall⟩ g call' hinfo
    obtain _ | g := g
    · rw [Nat.lt_one_iff.mp (of_decide_eq_true htest), hinfo] at hcall
      cases hcall
    · cases (hrest hs _ (Nat.le_add_left 1 g)).symm.trans hinfo
  have hapart := hreach.weaken fun _ _ h => h.1
  have hpcs (g : Nat) : s.pc g = .idle := (Nat.lt_or_ge g 1).elim
    (fun hg => Nat.lt_one_iff.mp hg ▸ hidle) (hrest hreach g)
  obtain ⟨hgen, -, hlast⟩ := replace_consistent "p" old
  refine ⟨s, hapart, hcalls, ?_, ?_⟩
  · rw [hgen s hapart.any, hcount]
    rfl
  · rw [hlast s hapart hpcs, last, hcalls]
    rfl

/-- A `Replace` and a `Revert` cross: the original function has the meta data of the replacement. -/
theorem replace_crosses : ∃ s, Reach (next step) (· = start "p" old) anyStep s ∧
    (∀ g, s.pc g = .idle) ∧ s.shared.current = old ∧ s.shared.info = note := by
  have h : ∃ s, Reach (next step) (· = start "p" old) (fun _ l => l.1 < 2) s ∧
      (∀ g < 2, s.pc g = .idle) ∧ s.shared.current = old ∧ s.shared.info = note :=
    exists_of_run rfl (fun _ l => l.1 < 2)
      [(0, .call (.revert "p") 0), (1, .call (.replace "p" (some new) note) 0), (1, .run),
        (0, .run), (0, .run), (1, .run), (0, .run), (1, .run)]
      (fun _ _ _ htest => of_decide_eq_true htest) (by decide)
  obtain ⟨s, hreach, hidle, hstored⟩ := h
  have hrest := pc_of_bounded hreach (n := 2) (p := .idle) (by rintro _ rfl g -; rfl) fun _ _ h => h
  exact ⟨s, hreach.any, fun g => (Nat.lt_or_ge g 2).elim (hidle g) (hrest g), hstored⟩

end CubeCore.HotCode
