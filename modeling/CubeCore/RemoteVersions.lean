import CubeCore.Interleaving
import Mathlib.Data.List.Chain

namespace CubeCore.RemoteVersions

open Interleaving TransitionSystem

structure RemoteVersionVector where
  stateVersion : Nat := 0
  markerEpoch : Nat := 0
  lockFence : Nat := 0
  routeEpoch : Nat := 0
deriving DecidableEq

inductive VersionError where
  | remoteFenced
  | remoteVersionConflict
deriving DecidableEq

/-- Where a goroutine is. A pointer is the number of vectors that were published up to it. -/
inductive PC where
  | idle (err : Option VersionError)
  | loadEntity (v : Nat)
  | swapEntity (v pointer : Nat) (next : RemoteVersionVector)
  | loadVector (version : RemoteVersionVector)
  | swapVector (version : RemoteVersionVector) (pointer : Nat)
  | read (vector : RemoteVersionVector)
deriving DecidableEq

inductive Act where
  | setEntityVersion (v : Int)
  | setRemoteVersionVector (version : RemoteVersionVector)
  | remoteVersionVector
  | run

def maxInt64 : Nat := 9223372036854775807

/-- A step, with the vectors that were published, the last one first. -/
def step (s : List RemoteVersionVector) : PC → Act → Option (List RemoteVersionVector × PC)
  | .idle _, .setEntityVersion v => some (s, .loadEntity v.toNat)
  | .loadEntity v, .run =>
    some (s, .swapEntity v s.length { s.head?.getD {} with stateVersion := v })
  | .swapEntity v pointer next, .run =>
    some (if s.length = pointer then (next :: s, .idle none) else (s, .loadEntity v))
  | .idle _, .setRemoteVersionVector version =>
    some (s, if maxInt64 < version.stateVersion then .idle (some .remoteVersionConflict)
      else .loadVector version)
  | .loadVector version, .run =>
    some (s, if s.head?.any (version.lockFence < ·.lockFence) then .idle (some .remoteFenced)
      else .swapVector version s.length)
  | .swapVector version pointer, .run =>
    some (if s.length = pointer then (version :: s, .idle none) else (s, .loadVector version))
  | .idle _, .remoteVersionVector => some (s, .read (s.head?.getD {}))
  | .read _, .run => some (s, .idle none)
  | _, _ => none

def next : Threads (List RemoteVersionVector) PC → Nat × Act →
    Option (Threads (List RemoteVersionVector) PC) :=
  Interleaving.next fun _ => step

/-- The vector that `NewRemoteEntityBase` publishes. -/
def created : RemoteVersionVector := { markerEpoch := 1, routeEpoch := 1 }

def Initial (s : Threads (List RemoteVersionVector) PC) : Prop :=
  s.shared ∈ [[], [created]] ∧ ∀ g, s.pc g = .idle none

/-- Callers set vectors that are `allowed`. -/
def passes (allowed : RemoteVersionVector → Prop) (_ : Threads (List RemoteVersionVector) PC)
    (l : Nat × Act) : Prop :=
  ∀ version, l.2 = .setRemoteVersionVector version → allowed version

def Accepted (allowed : RemoteVersionVector → Prop) (version : RemoteVersionVector) : Prop :=
  allowed version ∧ version.stateVersion ≤ maxInt64

/-- A vector whose fence is not below that of another has no lower epochs. -/
def Ordered (allowed : RemoteVersionVector → Prop) : Prop :=
  ∀ u v, u = created ∨ Accepted allowed u → Accepted allowed v → u.lockFence ≤ v.lockFence →
    u.markerEpoch ≤ v.markerEpoch ∧ u.routeEpoch ≤ v.routeEpoch

/-- A vector that a caller has set, or the first one, with any state version. -/
def Source (allowed : RemoteVersionVector → Prop) (w : RemoteVersionVector) : Prop :=
  ∃ u n, (u = {} ∨ u = created ∨ Accepted allowed u) ∧ w = { u with stateVersion := n }

/-- `newer` was published after `older`. -/
structure Above (allowed : RemoteVersionVector → Prop) (newer older : RemoteVersionVector) :
    Prop where
  fence : older.lockFence ≤ newer.lockFence
  epochs : Ordered allowed →
    older.markerEpoch ≤ newer.markerEpoch ∧ older.routeEpoch ≤ newer.routeEpoch

instance (allowed : RemoteVersionVector → Prop) : IsTrans _ (Above allowed) :=
  ⟨fun _ _ _ h h' => ⟨h'.fence.trans h.fence, fun ho =>
    ⟨(h'.epochs ho).1.trans (h.epochs ho).1, (h'.epochs ho).2.trans (h.epochs ho).2⟩⟩⟩

structure Published (allowed : RemoteVersionVector → Prop) (s : List RemoteVersionVector) :
    Prop where
  chain : s.IsChain (Above allowed)
  source : ∀ w ∈ s, Source allowed w

/-- What a goroutine knows of the current vector as long as its pointer is the last one. -/
def Knows (allowed : RemoteVersionVector → Prop) (s : List RemoteVersionVector) : PC → Prop
  | .swapEntity v pointer next => Source allowed next ∧ pointer ≤ s.length ∧
      (s.length = pointer → ∀ current ∈ s.head?, next = { current with stateVersion := v })
  | .loadVector version => Accepted allowed version
  | .swapVector version pointer => Accepted allowed version ∧ pointer ≤ s.length ∧
      (s.length = pointer → ∀ current ∈ s.head?, current.lockFence ≤ version.lockFence)
  | .read vector => vector ∈ s ∨ vector = {}
  | _ => True

section Steps

variable {allowed : RemoteVersionVector → Prop} {s s' : List RemoteVersionVector} {pc pc' : PC}
  {a : Act}

theorem step_cases (h : step s pc a = some (s', pc')) : s' = s ∨
    (∃ v pointer next, pc = .swapEntity v pointer next ∧ s.length = pointer ∧ s' = next :: s) ∨
    ∃ version pointer, pc = .swapVector version pointer ∧ s.length = pointer ∧
      s' = version :: s := by
  unfold step at h
  grind

theorem knows_own (hguard : ∀ version, a = .setRemoteVersionVector version → allowed version)
    (hs : Published allowed s) (hknows : Knows allowed s pc) (h : step s pc a = some (s', pc')) :
    Knows allowed s' pc' := by
  have hnext (v : Nat) : Source allowed { s.head?.getD {} with stateVersion := v } := by
    cases s with
    | nil => exact ⟨_, v, .inl rfl, rfl⟩
    | cons w s =>
      obtain ⟨u, n, hu, rfl⟩ := hs.source w (by simp)
      exact ⟨u, v, hu, rfl⟩
  cases s with
  | nil =>
    unfold step at h
    grind [Knows, Accepted]
  | cons =>
    unfold step at h
    grind [Knows, Accepted]

theorem knows_cons (v : RemoteVersionVector) (h : Knows allowed s pc) :
    Knows allowed (v :: s) pc := by
  cases pc <;> grind [Knows]

theorem Published.set {version : RemoteVersionVector} (hs : Published allowed s)
    (hversion : Accepted allowed version)
    (hfence : ∀ current ∈ s.head?, current.lockFence ≤ version.lockFence) :
    Published allowed (version :: s) := by
  refine ⟨List.isChain_cons.mpr ⟨fun current hcurrent => ⟨hfence current hcurrent, ?_⟩, hs.chain⟩,
    List.forall_mem_cons.mpr ⟨⟨version, _, .inr (.inr hversion), rfl⟩, hs.source⟩⟩
  intro hordered
  have hle := hfence current hcurrent
  obtain ⟨u, n, hu, rfl⟩ := hs.source current (List.mem_of_mem_head? hcurrent)
  rcases hu with rfl | hu
  · exact ⟨Nat.zero_le _, Nat.zero_le _⟩
  · exact hordered u version hu hversion hle

theorem published_step (hs : Published allowed s) (hknows : Knows allowed s pc)
    (h : step s pc a = some (s', pc')) : Published allowed s' := by
  rcases step_cases h with rfl | ⟨v, pointer, next, rfl, hlast, rfl⟩ |
    ⟨version, pointer, rfl, hlast, rfl⟩
  · exact hs
  · obtain ⟨hsource, -, hcurrent⟩ := hknows
    refine ⟨List.isChain_cons.mpr ⟨fun current hmem => ?_, hs.chain⟩,
      List.forall_mem_cons.mpr ⟨hsource, hs.source⟩⟩
    rw [hcurrent hlast current hmem]
    exact ⟨le_rfl, fun _ => ⟨le_rfl, le_rfl⟩⟩
  · exact hs.set hknows.1 (hknows.2.2 hlast)

end Steps

variable {allowed : RemoteVersionVector → Prop} {s : Threads (List RemoteVersionVector) PC}

theorem published_reach (h : Reach next Initial (passes allowed) s) :
    Holds (Published allowed) (fun _ => Knows allowed) s := by
  refine Holds.of_reach h ?_ ?_
  · rintro s ⟨hshared, hpc⟩
    refine ⟨?_, fun g => by rw [hpc]; trivial⟩
    simp only [List.mem_cons, List.not_mem_nil, or_false] at hshared
    rcases hshared with hshared | hshared <;> rw [hshared]
    · exact ⟨.nil, by simp⟩
    · exact ⟨.singleton _, by simpa using ⟨created, 0, .inr (.inl rfl), rfl⟩⟩
  intro s g a e p hinv hguard hstep
  refine ⟨published_step hinv.shared (hinv.knows g) hstep,
    knows_own (fun version => hguard version) hinv.shared (hinv.knows g) hstep,
    fun g' p' _ hknows => ?_⟩
  rcases step_cases hstep with rfl | ⟨_, _, _, _, _, rfl⟩ | ⟨_, _, _, _, rfl⟩
  · exact hknows
  · exact knows_cons _ hknows
  · exact knows_cons _ hknows

/-- One call after the other, on what is published first. -/
theorem reach_set {s : List RemoteVersionVector} (version : RemoteVersionVector)
    (hversion : Accepted allowed version)
    (hfence : ∀ current ∈ s.head?, current.lockFence ≤ version.lockFence)
    (h : Reach next Initial (passes allowed) ⟨s, fun _ => .idle none⟩) :
    Reach next Initial (passes allowed) ⟨version :: s, fun _ => .idle none⟩ := by
  obtain ⟨hallowed, hmax⟩ := hversion
  have hcurrent : s.head?.any (version.lockFence < ·.lockFence) = false := by
    cases s with
    | nil => rfl
    | cons w s => simpa using hfence w rfl
  let pc : Nat → PC := fun _ => .idle none
  have hset : next ⟨s, pc⟩ (0, .setRemoteVersionVector version) =
      some ⟨s, Function.update pc 0 (.loadVector version)⟩ := by
    simp [next, Interleaving.next, step, pc, Nat.not_lt.mpr hmax]
  have hload : next ⟨s, Function.update pc 0 (.loadVector version)⟩ (0, .run) =
      some ⟨s, Function.update pc 0 (.swapVector version s.length)⟩ := by
    simp [next, Interleaving.next, step, hcurrent]
  have hswap : next ⟨s, Function.update pc 0 (.swapVector version s.length)⟩ (0, .run) =
      some ⟨version :: s, pc⟩ := by
    simp [next, Interleaving.next, step, pc]
  refine .step (.step (.step h ?_ hset) ?_ hload) ?_ hswap
  · rintro _ ⟨⟩
    exact hallowed
  · rintro _ ⟨⟩
  · rintro _ ⟨⟩

/-- The fence never goes back and readers get a published vector. The epochs do not go back exactly
when the vectors callers set are ordered. -/
theorem generations_advance (allowed : RemoteVersionVector → Prop) :
    (∀ s, Reach next Initial anyStep s →
      s.shared.Pairwise (fun newer older => older.lockFence ≤ newer.lockFence) ∧
      ∀ g vector, s.pc g = .read vector → vector ∈ s.shared ∨ vector = {}) ∧
    ((∀ s, Reach next Initial (passes allowed) s → s.shared.Pairwise fun newer older =>
      older.markerEpoch ≤ newer.markerEpoch ∧ older.routeEpoch ≤ newer.routeEpoch) ↔
      Ordered allowed) := by
  have hpairwise {allowed : RemoteVersionVector → Prop} {s : Threads (List RemoteVersionVector) PC}
      (h : Reach next Initial (passes allowed) s) : s.shared.Pairwise (Above allowed) :=
    List.isChain_iff_pairwise.mp (published_reach h).shared.chain
  refine ⟨fun s h => ?_, fun hall u v hu hv hle => ?_, fun hordered s h => ?_⟩
  · have h : Reach next Initial (passes fun _ => True) s := h.weaken fun _ _ _ _ _ => trivial
    refine ⟨(hpairwise h).imp Above.fence, fun g vector hpc => ?_⟩
    have hread := (published_reach h).knows g
    rwa [hpc] at hread
  · have hfirst : Reach next Initial (passes allowed) ⟨[u], fun _ => .idle none⟩ := by
      rcases hu with rfl | hu
      · exact .start ⟨by simp, fun _ => rfl⟩
      · exact reach_set u hu (by simp) (.start ⟨by simp, fun _ => rfl⟩)
    exact (List.pairwise_cons.mp (hall _ (reach_set v hv (by simpa using hle) hfirst))).1 u
      (by simp)
  · exact (hpairwise h).imp fun habove => habove.epochs hordered

def made : Threads (List RemoteVersionVector) PC := ⟨[created], fun _ => .idle none⟩

theorem reach_made : Reach next Initial anyStep made := .start ⟨by simp [made], fun _ => rfl⟩

theorem generations_advance_fenced :
    ∃ s, Reach next Initial (passes (· ∈ [⟨2, 2, 7, 2⟩, ⟨4, 1, 5, 1⟩])) s ∧
      (s.shared = [⟨3, 2, 7, 2⟩, ⟨2, 2, 7, 2⟩, ⟨0, 1, 0, 1⟩] ∧
        s.pc 2 = .idle (some .remoteFenced)) ∧
      s.shared.Pairwise fun newer older =>
        older.markerEpoch ≤ newer.markerEpoch ∧ older.routeEpoch ≤ newer.routeEpoch := by
  have hordered : Ordered (· ∈ [⟨2, 2, 7, 2⟩, ⟨4, 1, 5, 1⟩]) := by
    simp only [Ordered, Accepted, List.mem_cons, List.not_mem_nil, or_false]
    rintro u v (rfl | ⟨rfl | rfl, -⟩) ⟨rfl | rfl, -⟩ <;> decide
  refine exists_reach_imp (exists_of_run (s := made) ⟨by simp [made], fun _ => rfl⟩ (fun _ l =>
    match l.2 with
    | .setRemoteVersionVector v => decide (v ∈ [⟨2, 2, 7, 2⟩, ⟨4, 1, 5, 1⟩])
    | _ => true)
    [(1, .setEntityVersion 3), (1, .run), (0, .setRemoteVersionVector ⟨2, 2, 7, 2⟩), (0, .run),
      (0, .run), (1, .run), (1, .run), (1, .run), (2, .setRemoteVersionVector ⟨4, 1, 5, 1⟩),
      (2, .run)] ?_ (by decide +kernel))
    fun s h hs => ⟨hs, (generations_advance _).2.mpr hordered s h⟩
  rintro s ⟨g, a⟩ - htest version rfl
  simpa using htest

/-- A vector with the fence of the current one takes the marker epoch and the route epoch back. -/
theorem epochs_go_back :
    ∃ s, Reach next Initial anyStep s ∧ s.shared = [⟨2, 1, 7, 1⟩, ⟨1, 2, 7, 2⟩, ⟨0, 1, 0, 1⟩] ∧
      s.pc 0 = .idle none :=
  ⟨_, reach_made.of_run
    (show run next made [(0, .setRemoteVersionVector ⟨1, 2, 7, 2⟩), (0, .run), (0, .run),
      (0, .setRemoteVersionVector ⟨2, 1, 7, 1⟩), (0, .run), (0, .run)] = some _ from rfl), rfl, rfl⟩

end CubeCore.RemoteVersions
