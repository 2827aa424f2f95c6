import CubeCore.JournalRuns

namespace CubeCore.JournalRecovery

open FileJournal HistoryContent HistoryEffects JournalDirectory JournalRuns SyncStream AList Option
open FileJournal.Directory
open TransitionSystem

variable {B : Type} {codec : Codec B} {options : HistoryOptions} {w : World B}

section Calls

variable [DecidableEq B]

theorem recorded_of_perform (hnormal : Normal h.options) :
    (perform (fileJournal codec) (w.attach h fault) call).1.journal =
        some { w.journal with fault } ∨
      ∃ mutation err journal,
        (perform (fileJournal codec) (w.attach h fault) call).1.journal = some journal ∧
        Recorded codec w.journal fault mutation err journal ∧
        ((perform (fileJournal codec) (w.attach h fault) call).2 = none ↔ err = none) := by
  have hattached : Normal (w.attach h fault).options := hnormal
  have heffect : Effect (fileJournal codec) _ _ _ := effect_perform hattached call
  cases heffect with
  | silent _ hjournal => exact .inl hjournal
  | refused _ hvalid hrecord hjournal _ herr =>
    obtain ⟨journal, hjournal₁, hrecorded⟩ := recorded_of_record hvalid.1 hrecord
    refine .inr ⟨_, _, journal, hjournal.trans hjournal₁, hrecorded, ?_⟩
    rw [herr]
    simp
  | done _ hvalid hrecord hjournal _ herr =>
    obtain ⟨journal, hjournal₁, hrecorded⟩ := recorded_of_record hvalid.1 hrecord
    exact .inr ⟨_, _, journal, hjournal.trans hjournal₁, hrecorded, by simp [herr]⟩

/-- If calls find the WAL in order, every restart succeeds and finds recorded mutations, among them
all whose call returned nil. -/
theorem restart_keeps_returned (codec : Codec B) (options : HistoryOptions) {w : World B}
    (hreach : Reach (next codec options) (· = initial) (orderly codec) w) (initialEpoch : Nat)
    (entropy : Entropy) (now : Int) :
    ∃ h, reopen codec options w initialEpoch entropy now = .ok h ∧
      Kept (normalized options) w.journal.attempts (contentOf h) := by
  obtain ⟨generation, c, hstored, hkept, hblank⟩ :=
    (inv_of_reach hreach).stored initialEpoch entropy
  obtain ⟨h, hreopen, rfl, -, -⟩ := reopen_stored hstored initialEpoch entropy now
    fun hempty => (hblank hempty).2
  exact ⟨h, hreopen, hkept⟩

end Calls

section Faults

def twoBytes : Codec (Option (HistoryMutation × Nat)) where
  newline := none
  encode mutation := [some (mutation, 0), some (mutation, 1)]
  decode
    | [some (mutation, 0), some (mutation', 1), none] =>
      if mutation = mutation' then some mutation else none
    | _ => none
  newline_notMem := by simp
  decode_encode := by simp

def packet (body : UInt8) : Packet := { stream := { topic := "state" }, payload := [body] }

def clock : Entropy := ⟨none, 0⟩

def startsAgain (w : World (Option (HistoryMutation × Nat))) : Bool :=
  (reopen twoBytes {} w 7 clock 0).isOk

/-- No history can be opened when the first record is cut, when a record follows one that is cut, or
when a failed record has reached the file and its number is taken again. -/
theorem faults_stop_restart :
    (∃ w, Reach (next twoBytes {}) (· = initial) anyStep w ∧ startsAgain w = false ∧
        w.journal.attempts.map (·.2) = [false]) ∧
      (∃ w, Reach (next twoBytes {}) (· = initial) anyStep w ∧ startsAgain w = false ∧
        w.journal.attempts.map (·.2) = [true, false, true]) ∧
      ∃ w, Reach (next twoBytes {}) (· = initial) anyStep w ∧ startsAgain w = false ∧
        w.journal.attempts.map (·.2) = [false, true] := by
  refine ⟨?_, ?_, ?_⟩
  · exact exists_of_anyRun rfl
      [.start 7 clock 0, .call (.append (packet 1) 1) (.tear 1) true] (by decide +kernel)
  · exact exists_of_anyRun rfl
      [.start 7 clock 0, .call (.append (packet 1) 1) .none false,
        .call (.append (packet 2) 2) (.tear 1) true, .start 7 clock 3,
        .call (.append (packet 3) 4) .none false] (by decide +kernel)
  · exact exists_of_anyRun rfl
      [.start 7 clock 0, .call (.append (packet 1) 1) .late false,
        .call (.append (packet 2) 2) .none false] (by decide +kernel)

/-- The test for an orderly step. -/
def inOrder (w : World (Option (HistoryMutation × Nat))) : Action → Bool
  | .call _ fault _ =>
    let bytes := w.journal.directory.wal w.journal.generation
    (bytes.isEmpty || bytes.getLast? == some none) && !w.ahead &&
      match fault with
      | .tear (_ + 1) =>
        (newest w.journal.directory).isSome || !(w.journal.directory.wal 1).isEmpty
      | _ => true
  | _ => true

theorem orderly_of_inOrder {w} (h : inOrder w action = true) : orderly twoBytes w action := by
  cases action with
  | call =>
    simp only [inOrder, Bool.and_eq_true, Bool.or_eq_true, List.isEmpty_iff, beq_iff_eq,
      Bool.not_eq_true'] at h
    obtain ⟨⟨hterminated, hbehind⟩, hfault⟩ := h
    refine ⟨hterminated, hbehind, ?_⟩
    rintro ⟨hnewest, hwal⟩ written rfl
    cases written with
    | zero => rfl
    | succ => simp [hnewest, hwal] at hfault
  | checkpoint | crash | start => trivial

/-- A record and a checkpoint are cut by crashes, and a last record is written whole but its call
fails. -/
theorem restart_keeps_returned_torn :
    ∃ w, Reach (next twoBytes {}) (· = initial) (orderly twoBytes) w ∧
      w.journal.attempts.map (·.2) = [true, false, true, false] ∧
      ∃ h, reopen twoBytes {} w 7 clock 0 = .ok h ∧
        Kept (normalized {}) w.journal.attempts (contentOf h) := by
  refine exists_reach_imp (P := fun w => w.journal.attempts.map (·.2) = [true, false, true, false])
    (exists_of_run rfl inOrder
      [.start 7 clock 0, .call (.append (packet 1) 1) .none false,
        .call (.append (packet 2) 2) (.tear 1) true, .start 8 clock 3, .checkpoint .none false,
        .call (.append (packet 3) 4) .none false, .checkpoint (.stop 2) true, .start 9 clock 5,
        .call (.append (packet 4) 6) .late false]
      (fun _ _ _ h => orderly_of_inOrder h) (by decide +kernel)) ?_
  intro w hreach hw
  exact ⟨hw, restart_keeps_returned twoBytes {} hreach 7 clock 0⟩

end Faults

/-- Every write completes or has no effect, and no process dies in a call. -/
def faultless (_ : World B) : Action → Prop
  | .call _ fault dies =>
    dies = false ∧ fault ≠ .late ∧ ∀ written, fault = .tear written → written = 0
  | .checkpoint _ dies => dies = false
  | _ => True

def AllTerminated (codec : Codec B) (directory : Directory B) : Prop :=
  ∀ generation, Terminated codec (directory.wal generation)

section Terminated

variable {directory : Directory B} (hall : AllTerminated codec directory) (generation : Nat)
include hall

theorem AllTerminated.of_wals (hsame : ∀ generation, generation ≠ changed →
      directory'.wals.lookup generation = directory.wals.lookup generation)
    (hchanged : Terminated codec (directory'.wal changed)) : AllTerminated codec directory' := by
  intro generation
  rcases eq_or_ne generation changed with rfl | hne
  · exact hchanged
  · have hterminated := hall generation
    unfold wal at hterminated ⊢
    rwa [hsame generation hne]

theorem AllTerminated.append_line (mutation : HistoryMutation) :
    AllTerminated codec (directory.appendWal generation (line codec mutation)) := by
  refine hall.of_wals (fun _ hne => lookup_insert_ne hne) ?_
  right
  rw [wal_appendWal, line, ← List.append_assoc, List.getLast?_concat]

theorem AllTerminated.append_nothing : AllTerminated codec (directory.appendWal generation []) := by
  refine hall.of_wals (fun _ hne => lookup_insert_ne hne) ?_
  rw [wal_appendWal, List.append_nil]
  exact hall generation

theorem AllTerminated.remove : AllTerminated codec (directory.removeWal generation) := by
  refine hall.of_wals (fun _ hne => lookup_erase_ne hne) (.inl ?_)
  unfold wal removeWal
  rw [lookup_erase]
  rfl

theorem AllTerminated.create : AllTerminated codec (directory.createWal generation) := by
  refine hall.of_wals (fun _ hne => lookup_insert_ne hne) (.inl ?_)
  unfold wal createWal
  rw [lookup_insert]
  rfl

theorem AllTerminated.publish (snapshot : HistorySnapshot) (checkpoint wal : Bool) :
    AllTerminated codec
      ((directory.publish generation snapshot).removeObsolete generation checkpoint wal) := by
  have hcreated := hall.create generation
  unfold removeObsolete
  split
  · exact hcreated
  cases checkpoint <;> cases wal
  · exact hcreated
  · exact hcreated.remove _
  · exact hcreated
  · exact hcreated.remove _

theorem AllTerminated.steps (snapshot : HistorySnapshot) {steps : Nat} (hsteps : steps ≤ 2) :
    AllTerminated codec (directory.checkpointSteps generation snapshot steps) := by
  match steps, hsteps with
  | 0, _ => exact hall
  | 1, _ => exact hall.remove generation
  | 2, _ => exact hall.create generation

end Terminated

section Faultless

variable [DecidableEq B]

theorem terminated_call (hnormal : Normal h.options)
    (hall : AllTerminated codec w.journal.directory) (hlate : fault ≠ .late)
    (htear : ∀ written, fault = .tear written → written = 0) (call : Call) :
    AllTerminated codec (w.call codec h call fault dies).journal.directory := by
  show AllTerminated codec
    ((perform (fileJournal codec) (w.attach h fault) call).1.journal.getD w.journal).directory
  rcases recorded_of_perform hnormal with hsame | ⟨mutation, err, journal, hjournal, hrecorded, -⟩
  · rwa [hsame]
  rw [hjournal]
  cases hrecorded with
  | unopened => exact hall
  | torn hfault =>
    obtain rfl := htear _ hfault
    exact hall.append_nothing _
  | late hfault => exact absurd hfault hlate
  | complete => exact hall.append_line _ mutation

theorem terminated_checkpoint (hall : AllTerminated codec w.journal.directory)
    (hnext : w.checkpoint codec h fault false = some w') :
    AllTerminated codec w'.journal.directory ∧ (w.ahead = false → w'.ahead = false) := by
  cases fault with
  | stop steps =>
    have hnext : (if steps ≤ 2 then some _ else none) = some w' := hnext
    split_ifs at hnext with hsteps
    cases hnext
    exact ⟨hall.steps _ _ hsteps, id⟩
  | keep | none | unopened | tear | late =>
    cases hnext
    exact ⟨hall.publish _ _ _ _, fun _ => rfl⟩

theorem orderly_of_faultless (hreach : Reach (next codec options) (· = initial) faultless w) :
    Reach (next codec options) (· = initial) (orderly codec) w ∧
      AllTerminated codec w.journal.directory ∧ w.ahead = false := by
  induction hreach with
  | start hinit =>
    refine ⟨.start hinit, ?_, by rw [hinit]; rfl⟩
    intro generation
    rw [hinit]
    exact .inl rfl
  | @step w w' action _ hguard hnext ih =>
    obtain ⟨hreach, hall, hbehind⟩ := ih
    cases action with
    | call call fault =>
      obtain ⟨rfl, hlate, htear⟩ := hguard
      have horderly : orderly codec w (.call call fault false) := ⟨hall _, hbehind, fun _ => htear⟩
      refine ⟨.step hreach horderly hnext, ?_⟩
      obtain ⟨h, hprocess, rfl⟩ := map_eq_some_iff.mp hnext
      obtain ⟨c, hrunning⟩ := (inv_of_reach hreach).running hprocess
      have hsettings : Normal (settings h.options) := by
        rw [hrunning.settings_eq]
        exact normal_normalized options
      have hnormal : Normal h.options := ⟨hsettings.retains, hsettings.schema⟩
      refine ⟨terminated_call hnormal hall hlate htear call, ?_⟩
      simp [World.call, hbehind, hlate]
    | checkpoint fault dies =>
      obtain rfl : dies = false := hguard
      have horderly : orderly codec w (.checkpoint fault false) := trivial
      refine ⟨.step hreach horderly hnext, ?_⟩
      obtain ⟨h, -, hcheckpoint⟩ := bind_eq_some_iff.mp hnext
      obtain ⟨hterminated, hahead⟩ := terminated_checkpoint hall hcheckpoint
      exact ⟨hterminated, hahead hbehind⟩
    | crash =>
      have horderly : orderly codec w .crash := trivial
      refine ⟨.step hreach horderly hnext, ?_⟩
      obtain ⟨h, -, rfl⟩ := map_eq_some_iff.mp hnext
      exact ⟨hall, rfl⟩
    | start initialEpoch entropy now =>
      have horderly : orderly codec w (.start initialEpoch entropy now) := trivial
      refine ⟨.step hreach horderly hnext, ?_⟩
      obtain ⟨generation, c, hstored, -, hblank⟩ :=
        (inv_of_reach hreach).stored initialEpoch entropy
      obtain ⟨h, hreopen, -, -, hjournal⟩ := reopen_stored hstored initialEpoch entropy now
        fun hempty => (hblank hempty).2
      simp only [next] at hnext
      split_ifs at hnext
      simp only [hreopen, hjournal, getD_some] at hnext
      cases hnext
      exact ⟨hall, rfl⟩

/-- Without faults a restart finds exactly what the process has. -/
theorem recovery_exact (codec : Codec B) (options : HistoryOptions) {w : World B}
    (hreach : Reach (next codec options) (· = initial) faultless w)
    {h : History (FileHistoryJournal B)} (hprocess : w.process = some h) (entropy : Entropy)
    (now : Int) :
    ∃ h', reopen codec options w w.journal.initialEpoch entropy now = .ok h' ∧
      contentOf h' = contentOf h := by
  obtain ⟨horderly, -, hbehind⟩ := orderly_of_faultless hreach
  cases inv_of_reach horderly with
  | down hnone =>
    rw [hprocess] at hnone
    cases hnone
  | ahead _ _ hahead =>
    rw [hbehind] at hahead
    cases hahead
  | up hsome _ _ hstored _ hblank =>
    rw [hprocess] at hsome
    cases hsome
    have hepoch : Blank w.journal.directory →
        (contentOf h).epoch = initialEpochOf w.journal.initialEpoch entropy := by
      intro hempty
      obtain ⟨snapshot, hrel⟩ := hstored.rel
      have hne := hrel.epoch_ne_zero
      rw [(hblank hempty).2] at hne ⊢
      exact (if_neg hne).symm
    obtain ⟨h', hreopen, hcontent, -, -⟩ := reopen_stored hstored w.journal.initialEpoch
      entropy now hepoch
    exact ⟨h', hreopen, hcontent⟩

end Faultless

/-- Two packets of three are retained, the second is pruned, a checkpoint is taken, and a write
fails. -/
theorem recovery_exact_pruned :
    ∃ w h, Reach (next twoBytes { maxPacketsPerStream := 2, pruneAcknowledged := true })
        (· = initial) faultless w ∧ w.process = some h ∧
      ((contentOf h).streams (packet 1).key).map (fun stream =>
        (stream.latest, stream.acked, stream.items.length)) = some (4, 2, 2) ∧
      ∃ h', reopen twoBytes { maxPacketsPerStream := 2, pruneAcknowledged := true } w
          w.journal.initialEpoch clock 0 = .ok h' ∧ contentOf h' = contentOf h := by
  obtain ⟨w, hreach, hw⟩ : ∃ w, Reach (next twoBytes
      { maxPacketsPerStream := 2, pruneAcknowledged := true }) (· = initial) faultless w ∧
      w.process.any fun h => decide (((contentOf h).streams (packet 1).key).map
      (fun stream => (stream.latest, stream.acked, stream.items.length)) = some (4, 2, 2)) :=
    exists_of_run rfl (fun _ action => match action with
      | .call _ fault dies => !dies && (fault == .none || fault == .unopened)
      | .checkpoint _ dies => !dies
      | _ => true)
      [.start 7 clock 0, .call (.append (packet 1) 1) .none false,
        .call (.append (packet 2) 2) .none false, .checkpoint .none false,
        .call (.append (packet 3) 3) .none false,
        .call (.acknowledgeEpoch {} { topic := "state" } 7 2 4) .none false,
        .call (.append (packet 4) 5) .unopened false, .call (.append (packet 4) 6) .none false]
      (by
        intro w action _ htest
        cases action with
        | call =>
          simp only [Bool.and_eq_true, Bool.not_eq_true', Bool.or_eq_true, beq_iff_eq] at htest
          obtain ⟨rfl, rfl | rfl⟩ := htest
          · exact ⟨rfl, nofun, nofun⟩
          · exact ⟨rfl, nofun, nofun⟩
        | checkpoint _ dies =>
          have hlives : dies = false := by simpa using htest
          exact hlives
        | crash => trivial
        | start => trivial)
      (by decide +kernel)
  obtain ⟨h, hprocess, hnumbers⟩ := (any_eq_true ..).mp hw
  exact ⟨w, h, hreach, hprocess, of_decide_eq_true hnumbers,
    recovery_exact twoBytes _ hreach hprocess clock 0⟩

end CubeCore.JournalRecovery
