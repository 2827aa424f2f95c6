import CubeCore.SyncCustody

namespace CubeCore.EntitySync

open SubjectSync Interleaving TransitionSystem SubjectSyncState

variable {F V : Type}

/-- What is left when the packer panics. -/
def packerPanic (s : Sync F V) : PC F V → Option (Sync F V × PC F V)
  | .packing o _ _ => some (s.lock o none, .idle none)
  | .snapshot o _ _ _ => some ({ s.lock o none with op := none }, .idle none)
  | _ => none

/-- A step of a call or of the entity, or a panic of the packer. -/
def panicStep [DecidableEq F] (bit : F → Fin 64) (g : Nat) (s : Sync F V) (pc : PC F V) :
    Option (Act F V) → Option (Sync F V × PC F V)
  | some a => step bit g s pc a
  | none => packerPanic s pc

def isPacking : PC F V → Bool
  | .packing _ _ _ => true
  | _ => false

/-- The state stays open, and no packer panics while a flush is prepared. -/
def packs (s : Threads (Sync F V) (PC F V)) (l : Nat × Option (Act F V)) : Prop :=
  l.2 ≠ some .close ∧ (l.2 = none → isPacking (s.pc l.1) = false)

section Tokens

variable {bit : F → Fin 64} {g : Nat} {s s' : Sync F V} {pc pc' : PC F V}

theorem states_setState (o o' : Nat) (state : SubjectSyncState) :
    (s.setState o' state).states o = if o = o' then state else s.states o :=
  Function.update_apply ..

theorem states_lock (o o' : Nat) (g : Option Nat) : (s.lock o' g).states o = s.states o := rfl

theorem commit_token {P : Type} {state state' : SubjectSyncState} {p : PreparedSubjectSync P}
    {err : Option SyncError} (hcommit : state.commit p = (state', err))
    (h : state.inflightToken = p.token) : state'.inflightToken = 0 := by
  unfold commit at hcommit
  split_ifs at hcommit <;> cases hcommit <;> rfl

/-- A token in flight after a step is its goroutine's own, or was before and is another's. -/
def Handed (s s' : Sync F V) (pc pc' : PC F V) : Prop :=
  ∀ o, (s'.states o).inflightToken ≠ 0 → (∃ t, flight pc' = some (o, t)) ∨
    (s.states o).inflightToken ≠ 0 ∧ ∀ t, flight pc ≠ some (o, t)

theorem handed_flushes (hflying : ∀ o t, flight pc = some (o, t) → Flying g s o t)
    (h : Flushes bit g s pc s' pc') : Handed s s' pc pc' := by
  intro o ho
  cases h with
  | @started o' =>
    rcases eq_or_ne o o' with rfl | hne
    · exact .inl ⟨_, rfl⟩
    · exact .inr ⟨by simpa [Sync.lock, Sync.setState, hne] using ho, nofun⟩
  | committed hcommit | stale hcommit =>
    have hzero := commit_token hcommit (hflying _ _ rfl).token
    grind [states_setState, flight]
  | packFailed | refused | aborted =>
    have htoken := (hflying _ _ rfl).token
    grind [states_setState, states_lock, flight, Ticket.prepared, abort, failPrepare]
  | _ => grind [states_setState, states_lock, Sync.admitAll, flight]

theorem handed_subscribes (h : Subscribes g s pc s' pc') : Handed s s' pc pc' := by
  intro o ho
  cases h <;> grind [states_setState, states_lock, Sync.admitAll, flight, setSubjectSyncError]

theorem packerPanic_eq_some (h : packerPanic s pc = some (s', pc')) (hpc : isPacking pc = false) :
    ∃ o, s' = { s.lock o none with op := none } ∧ pc' = .idle none ∧ holdsOp pc = true ∧
      flight pc = none := by
  cases pc with
  | snapshot o =>
    cases h
    exact ⟨o, rfl, rfl, rfl, rfl⟩
  | packing => cases hpc
  | _ => cases h

variable [DecidableEq F] {a : Act F V}

theorem handed_event (h : Event bit s a s') (hclose : a ≠ .close) :
    Handed s s' (.idle err) (.idle err) := by
  intro o ho
  cases h <;> grind [states_setState, newSubjectSyncState, markDirty, markFullDirty]

theorem handed_step (hflying : ∀ o t, flight pc = some (o, t) → Flying g s o t)
    (hstep : Step bit g s pc a s' pc') (hclose : a ≠ .close) : Handed s s' pc pc' := by
  cases hstep with
  | outside hfrom => cases hfrom <;> exact fun o ho => .inr ⟨ho, nofun⟩
  | event hevent => exact handed_event hevent hclose
  | flushes hflush => exact handed_flushes hflying hflush
  | subscribes hsubscribe => exact handed_subscribes hsubscribe
  | unsubscribes hunsubscribe => cases hunsubscribe <;> exact fun o ho => .inr ⟨ho, nofun⟩
  | released => exact fun o ho => .inr ⟨ho, nofun⟩

theorem keeps_panicStep {s : Threads (Sync F V) (PC F V)} (hinv : Holds Objects Custody s)
    (hguard : packs s (g, l)) (h : panicStep bit g s.shared (s.pc g) l = some (e, pc)) :
    Keeps Objects Custody g s.shared e pc := by
  have hcustody := hinv.knows g
  cases l with
  | some a =>
    have hstep := step_of_eq h
    have hclose : a = .close → (s.shared.states s.shared.current).inflightToken = 0 := by
      rintro rfl
      exact absurd rfl hguard.1
    exact ⟨objects_step hinv.shared hstep, custody_own hcustody hstep,
      fun g' p hne hp => custody_other hinv.shared hcustody hne hp hstep hclose⟩
  | none =>
    obtain ⟨o, rfl, rfl, hpc, -⟩ := packerPanic_eq_some h (hguard.2 rfl)
    refine ⟨hinv.shared, ⟨⟨nofun, nofun⟩, nofun⟩, fun g' p hne hp => ⟨?_, ?_⟩⟩
    · -- the goroutine that panics has the operation lock
      rw [hp.op, hcustody.op.mp hpc]
      exact ⟨fun hg => absurd (Option.some.inj hg).symm hne, nofun⟩
    · exact fun o' t hflight => (hp.flight o' t hflight).congr rfl rfl

/-- Every token in flight is that of a goroutine. -/
def Held (s : Threads (Sync F V) (PC F V)) : Prop :=
  ∀ o, (s.shared.states o).inflightToken ≠ 0 → ∃ g t, flight (s.pc g) = some (o, t)

theorem held_next {s s' : Threads (Sync F V) (PC F V)} (hinv : Holds Objects Custody s) (h : Held s)
    (hguard : packs s l) (hnext : Interleaving.next (panicStep bit) s l = some s') : Held s' := by
  obtain ⟨g, l⟩ := l
  obtain ⟨e, p, hstep, rfl⟩ := next_eq_some hnext
  have hhanded : Handed s.shared e (s.pc g) p := by
    cases l with
    | some =>
      refine handed_step (hinv.knows g).flight (step_of_eq hstep) ?_
      rintro rfl
      exact hguard.1 rfl
    | none =>
      obtain ⟨o, rfl, rfl, -, hflight⟩ := packerPanic_eq_some hstep (hguard.2 rfl)
      exact fun o' ho => .inr ⟨ho, by simp [hflight]⟩
  intro o ho
  rcases hhanded o ho with ⟨t, ht⟩ | ⟨hbefore, hnot⟩
  · exact ⟨g, t, by simpa using ht⟩
  obtain ⟨g', t, ht⟩ := h o hbefore
  have hne : g' ≠ g := by
    rintro rfl
    exact hnot t ht
  exact ⟨g', t, by simpa [hne] using ht⟩

/-- When no call is executing nothing is in flight, and a flush finds no other prepare. -/
theorem idle_not_inFlight {subject : Subject} {sink : Bool} {content : SyncProfile → F → V}
    {s : Threads (Sync F V) (PC F V)}
    (h : Reach (Interleaving.next (panicStep bit)) (· = initial subject sink content) packs s)
    (hidle : ∀ g, ∃ err, s.pc g = .idle err) (o : Nat) :
    (s.shared.states o).inflightToken = 0 ∧
      (s.shared.states o).startPrepare.2 ≠ .error .inFlight := by
  have hheld : Held s := by
    refine h.invariant_of (show ∀ s, _ → Holds Objects Custody s from fun s hreach => ?_) ?_
      fun s l s' hinv hheld hguard hnext => held_next hinv hheld hguard hnext
    · refine Holds.of_reach hreach ?_ fun s g l e p hinv hguard hstep =>
        keeps_panicStep hinv hguard hstep
      rintro _ rfl
      exact ⟨fun o ho => by simpa [initial] using ho, fun g => ⟨⟨nofun, nofun⟩, nofun⟩⟩
    · rintro _ rfl o ho
      exact absurd rfl ho
  have hzero : (s.shared.states o).inflightToken = 0 := by
    by_contra ho
    obtain ⟨g, t, hflight⟩ := hheld o ho
    obtain ⟨err, hpc⟩ := hidle g
    rw [hpc] at hflight
    cases hflight
  refine ⟨hzero, ?_⟩
  unfold startPrepare
  split_ifs <;> simp_all

end Tokens

theorem idle_not_inFlight_packFailed :
    ∃ s, Reach (Interleaving.next (panicStep fun _ : Unit => 0))
        (· = initial ⟨1, "", 0⟩ true fun _ _ => 0) packs s ∧
      (s.shared.states 0).nextToken = 1 ∧ (s.shared.states 0).inflightToken = 0 := by
  have hstart : Reach (Interleaving.next (panicStep fun _ : Unit => 0))
    (· = initial ⟨1, "", 0⟩ true fun _ _ => 0) packs _ := .start rfl
  have hdirty := hstart.step (a := (0, some (.change () fun _ => 1))) ⟨nofun, nofun⟩ rfl
  have hflush := hdirty.step (a := (0, some (.flush 0))) ⟨nofun, nofun⟩ rfl
  have hprepare := hflush.step (a := (0, some .run)) ⟨nofun, nofun⟩ rfl
  have hpack := hprepare.step (a := (0, some .run)) ⟨nofun, nofun⟩ rfl
  have hfail := hpack.step (a := (0, some (.fail ⟨"", 0, 0⟩ "full"))) ⟨nofun, nofun⟩ rfl
  refine ⟨_, hfail, rfl, (idle_not_inFlight hfail (fun g => ?_) 0).1⟩
  rcases eq_or_ne g 0 with rfl | hg
  · exact ⟨_, rfl⟩
  · exact ⟨none, by simp [hg, initial]⟩

/-- The packer panics while a flush is prepared, and a later flush finds that prepare. -/
theorem panic_leaves_inFlight :
    ∃ s, Reach (Interleaving.next (panicStep fun _ : Unit => 0))
        (· = initial ⟨1, "", 0⟩ true fun _ _ => 0) anyStep s ∧
      (∀ g, ∃ err, s.pc g = .idle err) ∧
      (s.shared.states 0).startPrepare.2 = .error .inFlight := by
  refine ⟨_, Reach.of_run (.start rfl) (show run _ _ [(0, some (.change () fun _ => 1)),
    (0, some (.flush 0)), (0, some .run), (0, some .run), (0, none)] = some _ from rfl), ?_, rfl⟩
  intro g
  rcases eq_or_ne g 0 with rfl | hg
  · exact ⟨none, rfl⟩
  · exact ⟨none, by simp [hg, initial]⟩

end CubeCore.EntitySync
