import CubeCore.HistoryEffects
import CubeCore.JournalDirectory
import CubeCore.TransitionSystem

namespace CubeCore.JournalRuns

open FileJournal HistoryContent HistoryEffects JournalDirectory SnapshotContent SyncStream List
open TransitionSystem

/-- `ahead` is ghost data: the WAL has the line of a mutation whose `Record` has failed. -/
structure World (B : Type) where
  journal : FileHistoryJournal B
  process : Option (History (FileHistoryJournal B))
  ahead : Bool

def initial {B : Type} : World B where
  journal := ⟨⟨∅, ∅⟩, 0, 1, .none, []⟩
  process := none
  ahead := false

/-- A call or a checkpoint has a fault for its write, and the process can die in it. -/
inductive Action where
  | call (call : Call) (fault : Fault) (dies : Bool)
  | checkpoint (fault : Fault) (dies : Bool)
  | crash
  | start (initialEpoch : Nat) (entropy : Entropy) (now : Int)

variable {B : Type}

/-- The history of the process with the journal as it is now. -/
def World.attach (w : World B) (h : History (FileHistoryJournal B)) (fault : Fault) :
    History (FileHistoryJournal B) :=
  { h with journal := some { w.journal with fault } }

section Steps

variable [DecidableEq B]

/-- `NewHistoryWithJournal` on the directory. -/
def reopen (codec : Codec B) (options : HistoryOptions) (w : World B) (initialEpoch : Nat)
    (entropy : Entropy) (now : Int) : Except HistoryError (History (FileHistoryJournal B)) :=
  newHistoryWithJournal (fileJournal codec) options entropy
    (newFileHistoryJournal w.journal.directory initialEpoch entropy w.journal.attempts) now

def World.call (codec : Codec B) (w : World B) (h : History (FileHistoryJournal B))
    (call : Call) (fault : Fault) (dies : Bool) : World B :=
  let h' := (perform (fileJournal codec) (w.attach h fault) call).1
  let journal := h'.journal.getD w.journal
  { journal
    process := if dies then none else some h'
    ahead := !dies &&
      (w.ahead || fault = .late && journal.attempts.length ≠ w.journal.attempts.length) }

def World.checkpoint (codec : Codec B) (w : World B) (h : History (FileHistoryJournal B))
    (fault : Fault) (dies : Bool) : Option (World B) :=
  let h' := (FileJournal.checkpoint (fileJournal codec) (w.attach h fault)).1
  let journal := h'.journal.getD w.journal
  if dies then some { journal, process := none, ahead := false }
  else
    match fault with
    | .stop steps =>
      -- once the rename is done there is no error to return
      if steps ≤ 2 then some { journal, process := some h', ahead := w.ahead } else none
    | _ => some { journal, process := some h', ahead := false }

def next (codec : Codec B) (options : HistoryOptions) (w : World B) : Action → Option (World B)
  | .call call fault dies => w.process.map fun h => w.call codec h call fault dies
  | .checkpoint fault dies => w.process.bind fun h => w.checkpoint codec h fault dies
  | .crash => w.process.map fun _ => { w with process := none, ahead := false }
  | .start initialEpoch entropy now =>
    if w.process.isSome then none
    else
      match reopen codec options w initialEpoch entropy now with
      | .error _ => none
      | .ok h =>
        some { journal := h.journal.getD w.journal, process := some h, ahead := false }

end Steps

def returned (attempts : List (HistoryMutation × Bool)) : List (HistoryMutation × Bool) :=
  attempts.filter (·.2)

/-- The content is made of recorded mutations in their order, among them all that returned nil. -/
def Kept (options : HistoryOptions) (attempts : List (HistoryMutation × Bool)) (c : Content) :
    Prop :=
  ∃ epoch kept, ((returned attempts).map (·.1)).Sublist kept ∧
    kept.Sublist (attempts.map (·.1)) ∧
    c = (Content.blank epoch).applyAll (limit options) kept

section Keeping

variable {options : HistoryOptions} {attempts : List (HistoryMutation × Bool)} {c : Content}

theorem Kept.refused (hkept : Kept options attempts c) (mutation : HistoryMutation) :
    Kept options (attempts ++ [(mutation, false)]) c := by
  obtain ⟨epoch, kept, hreturned, hattempted, hcontent⟩ := hkept
  refine ⟨epoch, kept, ?_, ?_, hcontent⟩
  · simpa [returned] using hreturned
  · rw [map_append]
    exact hattempted.trans (sublist_append_left ..)

theorem Kept.applied (hkept : Kept options attempts c) (mutation : HistoryMutation) (ok : Bool) :
    Kept options (attempts ++ [(mutation, ok)]) (c.apply (limit options) mutation) := by
  obtain ⟨epoch, kept, hreturned, hattempted, hcontent⟩ := hkept
  refine ⟨epoch, kept ++ [mutation], ?_, ?_, ?_⟩
  · rw [returned, filter_append, map_append]
    refine hreturned.append ?_
    cases ok <;> simp
  · rw [map_append]
    exact hattempted.append (List.Sublist.refl _)
  · rw [hcontent]
    simp [Content.applyAll]

theorem kept_blank (hreturned : returned attempts = []) (epoch : Nat) :
    Kept options attempts (.blank epoch) :=
  ⟨epoch, [], by simp [hreturned], nil_sublist _, rfl⟩

end Keeping

/-- The directory holds the content of the process, and one mutation more when its WAL is ahead. -/
inductive Inv (codec : Codec B) (options : HistoryOptions) (w : World B) : Prop
  | down : w.process = none → Stored codec options w.journal.directory generation c →
      Kept options w.journal.attempts c →
      (Blank w.journal.directory → returned w.journal.attempts = []) → Inv codec options w
  | up : w.process = some h → settings h.options = options → w.ahead = false →
      Stored codec options w.journal.directory w.journal.generation (contentOf h) →
      Kept options w.journal.attempts (contentOf h) →
      (Blank w.journal.directory →
        returned w.journal.attempts = [] ∧ (contentOf h).epoch = w.journal.initialEpoch) →
      Inv codec options w
  | ahead : w.process = some h →
      settings h.options = options → w.ahead = true → Rel options snapshot (contentOf h) →
      Stored codec options w.journal.directory w.journal.generation
        ((contentOf h).apply (limit options) mutation) →
      w.journal.attempts = earlier ++ [(mutation, false)] →
      Kept options earlier (contentOf h) → ¬ Blank w.journal.directory → Inv codec options w

variable {codec : Codec B} {options : HistoryOptions} {w : World B}
  {h : History (FileHistoryJournal B)} {fault : Fault}

variable {w' : World B}

theorem inv_agree {dies : Bool} (hprocess : w'.process = if dies then none else some h')
    (hahead : w'.ahead = false) (hoptions : settings h'.options = options)
    (hstored : Stored codec options w'.journal.directory w'.journal.generation (contentOf h'))
    (hkept : Kept options w'.journal.attempts (contentOf h'))
    (hblank : Blank w'.journal.directory → returned w'.journal.attempts = [] ∧
      (contentOf h').epoch = w'.journal.initialEpoch) :
    Inv codec options w' := by
  cases dies with
  | true => exact .down hprocess hstored hkept fun hempty => (hblank hempty).1
  | false => exact .up hprocess hoptions hahead hstored hkept hblank

/-- Nothing of the line is written, a part, or all of it; even then `Record` can fail. -/
inductive Recorded (codec : Codec B) (journal : FileHistoryJournal B) (fault : Fault)
    (mutation : HistoryMutation) : Option String → FileHistoryJournal B → Prop
  | unopened : fault = .unopened → Recorded codec journal fault mutation (some text)
        { journal with fault, attempts := journal.attempts ++ [(mutation, false)] }
  | torn {text : String} {written : Nat} : fault = .tear written →
      Recorded codec journal fault mutation (some text)
        { journal with
          fault
          directory := journal.directory.appendWal journal.generation
            ((codec.encode mutation).take written)
          attempts := journal.attempts ++ [(mutation, false)] }
  | late : fault = .late → Recorded codec journal fault mutation (some text)
        { journal with
          fault
          directory := journal.directory.appendWal journal.generation (line codec mutation)
          attempts := journal.attempts ++ [(mutation, false)] }
  | complete : fault ≠ .late →
      Recorded codec journal fault mutation none
        { journal with
          fault
          directory := journal.directory.appendWal journal.generation (line codec mutation)
          attempts := journal.attempts ++ [(mutation, true)] }

section Calls

variable [DecidableEq B]

theorem recorded_of_record {mutation : HistoryMutation} {err : Option String}
    {h₁ : History (FileHistoryJournal B)} (hversion : mutation.version = historyMutationVersion)
    (hrecord : SyncStream.record (fileJournal codec) (w.attach h fault) mutation = (err, h₁)) :
    ∃ journal, h₁.journal = some journal ∧ Recorded codec w.journal fault mutation err journal := by
  have hfile : (FileJournal.record codec mutation { w.journal with fault }).1 = err ∧
      h₁.journal = some (FileJournal.record codec mutation { w.journal with fault }).2 := by
    cases hrecord
    exact ⟨rfl, rfl⟩
  obtain ⟨rfl, hjournal⟩ := hfile
  refine ⟨_, hjournal, ?_⟩
  unfold FileJournal.record
  rw [if_neg (not_not.mpr hversion)]
  cases fault with
  | unopened => exact .unopened rfl
  | tear => exact .torn rfl
  | late => exact .late rfl
  | none | stop | keep => exact .complete nofun

theorem inv_call (hnormal : Normal options) (hoptions : settings h.options = options)
    (hahead : w.ahead = false)
    (hstored : Stored codec options w.journal.directory w.journal.generation (contentOf h))
    (hkept : Kept options w.journal.attempts (contentOf h))
    (hblank : Blank w.journal.directory →
      returned w.journal.attempts = [] ∧ (contentOf h).epoch = w.journal.initialEpoch)
    (hterminated : Terminated codec (w.journal.directory.wal w.journal.generation))
    (hfirst : Blank w.journal.directory → ∀ written, fault = .tear written → written = 0)
    (call : Call) (dies : Bool) : Inv codec options (w.call codec h call fault dies) := by
  subst hoptions
  have hattached : Normal (w.attach h fault).options := ⟨hnormal.retains, hnormal.schema⟩
  have heffect : Effect (fileJournal codec) _ _ _ := effect_perform hattached call
  have hone := hstored.generation_eq
  unfold World.call
  generalize perform (fileJournal codec) (w.attach h fault) call = result at heffect ⊢
  obtain ⟨h', err⟩ := result
  dsimp only at heffect ⊢
  cases heffect with
  | silent hoptions hjournal hcontent =>
    have hjournal : h'.journal = some { w.journal with fault } := hjournal
    rw [hjournal]
    refine inv_agree rfl ?_ (congrArg settings hoptions) ?_ ?_ ?_
    · simp [hahead]
    · rwa [hcontent]
    · rwa [hcontent]
    · rwa [hcontent]
  | @done mutation _ hoptions hvalid hrecord hjournal hcontent =>
    obtain ⟨journal, hjournal₁, hrecorded⟩ := recorded_of_record hvalid.1 hrecord
    rw [hjournal, hjournal₁]
    cases hrecorded with
    | complete hlate =>
      refine inv_agree rfl ?_ (congrArg settings hoptions) ?_ ?_ ?_
      · simp [hahead, hlate]
      · rw [hcontent]
        exact hstored.append_line hvalid hterminated
      · rw [hcontent]
        exact hkept.applied mutation true
      · intro hempty
        exact absurd hempty (not_blank_append _ hone (line_ne_nil mutation))
  | @refused mutation _ _ hoptions hvalid hrecord hjournal hcontent =>
    obtain ⟨journal, hjournal₁, hrecorded⟩ := recorded_of_record hvalid.1 hrecord
    have hcontent : contentOf h' = contentOf h := hcontent
    have hreturned : ∀ {attempts : List (HistoryMutation × Bool)}, returned attempts = [] →
        returned (attempts ++ [(mutation, false)]) = [] := by
      intro attempts hnone
      simpa [returned] using hnone
    rw [hjournal, hjournal₁]
    cases hrecorded with
    | unopened hfault =>
      refine inv_agree rfl ?_ (congrArg settings hoptions) ?_ ?_ ?_
      · simp [hahead, hfault]
      · rwa [hcontent]
      · rw [hcontent]
        exact hkept.refused mutation
      · intro hempty
        rw [hcontent]
        exact ⟨hreturned (hblank hempty).1, (hblank hempty).2⟩
    | @torn _ written hfault =>
      have hdata : codec.newline ∉ (codec.encode mutation).take written :=
        fun hmem => codec.newline_notMem mutation (mem_of_mem_take hmem)
      refine inv_agree rfl ?_ (congrArg settings hoptions) ?_ ?_ ?_
      · simp [hahead, hfault]
      · rw [hcontent]
        refine hstored.append_torn hdata ?_
        intro hempty
        rw [hfirst hempty written hfault, take_zero]
      · rw [hcontent]
        exact hkept.refused mutation
      · intro hempty
        have hbefore := blank_of_append hone hempty
        rw [hcontent]
        exact ⟨hreturned (hblank hbefore).1, (hblank hbefore).2⟩
    | late hfault =>
      have hline : line codec mutation ≠ [] := line_ne_nil mutation
      have hblank' := not_blank_append w.journal.directory hone hline
      have hstored' := hstored.append_line hvalid hterminated
      cases dies with
      | true =>
        exact .down rfl hstored' (hkept.applied mutation false) fun hempty => absurd hempty hblank'
      | false =>
        obtain ⟨snapshot, hrel⟩ := hstored.rel
        rw [← hcontent] at hstored' hkept hrel
        exact .ahead rfl (congrArg settings hoptions) (by simp [hfault]) hrel hstored' rfl
          hkept hblank'

end Calls

/-- What process and directory have in common; `c` is what the directory holds. -/
structure Running (codec : Codec B) (options : HistoryOptions) (w : World B)
    (h : History (FileHistoryJournal B)) (c : Content) : Prop where
  settings_eq : settings h.options = options
  rel : ∃ snapshot, Rel options snapshot (contentOf h)
  stored : Stored codec options w.journal.directory w.journal.generation c
  memory : Kept options w.journal.attempts (contentOf h)
  directory : Kept options w.journal.attempts c
  blank : Blank w.journal.directory → returned w.journal.attempts = []

theorem Inv.running (hinv : Inv codec options w) (hprocess : w.process = some h) :
    ∃ c, Running codec options w h c := by
  cases hinv with
  | down hnone =>
    rw [hprocess] at hnone
    cases hnone
  | up hsome hoptions _ hstored hkept hblank =>
    rw [hprocess] at hsome
    cases hsome
    exact ⟨_, hoptions, hstored.rel, hstored, hkept, hkept, fun hempty => (hblank hempty).1⟩
  | ahead hsome hoptions _ hrel hstored hattempts hkept hblank =>
    rw [hprocess] at hsome
    cases hsome
    refine ⟨_, hoptions, ⟨_, hrel⟩, hstored, ?_, ?_, fun hempty => absurd hempty hblank⟩
    · rw [hattempts]
      exact hkept.refused _
    · rw [hattempts]
      exact hkept.applied _ false

theorem Inv.crash (hinv : Inv codec options w) (hprocess : w.process = some h) :
    Inv codec options { w with process := none, ahead := false } := by
  obtain ⟨c, hrunning⟩ := hinv.running hprocess
  exact .down rfl hrunning.stored hrunning.directory hrunning.blank

variable {generation : Nat}

theorem blank_of_checkpointSteps {steps : Nat} {directory : Directory B}
    {snapshot : HistorySnapshot} (hgeneration : 0 < generation) (hsteps : steps ≤ 2)
    (hblank : Blank (directory.checkpointSteps (generation + 1) snapshot steps)) :
    Blank directory := by
  have hne : 1 ≠ generation + 1 := by omega
  have hlookup : ∀ {directory' : Directory B},
      directory'.wals.lookup 1 = directory.wals.lookup 1 → directory'.wal 1 = directory.wal 1 := by
    intro directory' hsame
    unfold FileJournal.Directory.wal
    rw [hsame]
  obtain ⟨hnewest, hwal⟩ := hblank
  match steps, hsteps with
  | 0, _ => exact ⟨hnewest, hwal⟩
  | 1, _ =>
    rw [hlookup (AList.lookup_erase_ne hne)] at hwal
    exact ⟨hnewest, hwal⟩
  | 2, _ =>
    rw [hlookup (AList.lookup_insert_ne hne)] at hwal
    exact ⟨hnewest, hwal⟩

variable {c : Content}

theorem Running.published {directory} {checkpoint wal : Bool}
    (hrunning : Running codec options w h c) (hnormal : Normal options)
    (heq : directory = (w.journal.directory.publish (w.journal.generation + 1)
      (exportLocked h)).removeObsolete (w.journal.generation + 1) checkpoint wal) :
    Stored codec options directory (w.journal.generation + 1) (contentOf h) ∧
      ¬ Blank directory := by
  obtain ⟨snapshot, hrel⟩ := hrunning.rel
  obtain ⟨-, hmax⟩ := hrunning.stored.le_generation
  obtain ⟨hnewest, hstored⟩ := stored_publish (rel_export hrel hnormal) hmax heq
  refine ⟨hstored, ?_⟩
  rintro ⟨hnone, -⟩
  rw [hnewest] at hnone
  cases hnone

theorem Running.cut (hrunning : Running codec options w h c) (hnormal : Normal options)
    (steps : Nat) :
    ∃ generation c', Stored codec options
        (w.journal.directory.checkpointSteps (w.journal.generation + 1) (exportLocked h) steps)
        generation c' ∧
      Kept options w.journal.attempts c' ∧
      (Blank (w.journal.directory.checkpointSteps (w.journal.generation + 1) (exportLocked h)
        steps) → returned w.journal.attempts = []) := by
  rcases Nat.lt_or_ge 2 steps with hrenamed | hsteps
  · obtain ⟨checkpoint, wal, heq⟩ : ∃ checkpoint wal, w.journal.directory.checkpointSteps
        (w.journal.generation + 1) (exportLocked h) steps = (w.journal.directory.publish
        (w.journal.generation + 1) (exportLocked h)).removeObsolete (w.journal.generation + 1)
        checkpoint wal := by
      match steps, hrenamed with
      | 3, _ =>
        refine ⟨false, false, ?_⟩
        simp [FileJournal.Directory.removeObsolete, FileJournal.Directory.checkpointSteps]
      | 4, _ => exact ⟨true, false, rfl⟩
      | n + 5, _ => exact ⟨true, true, rfl⟩
    obtain ⟨hstored, hblank⟩ := hrunning.published hnormal heq
    exact ⟨_, _, hstored, hrunning.memory, fun hempty => absurd hempty hblank⟩
  · have hpos := hrunning.stored.le_generation.1
    exact ⟨_, c, hrunning.stored.checkpointSteps _ hsteps, hrunning.directory,
      fun hempty => hrunning.blank (blank_of_checkpointSteps hpos hsteps hempty)⟩

section Checkpoints

variable [DecidableEq B]

theorem inv_checkpoint {dies : Bool} (hinv : Inv codec options w) (hprocess : w.process = some h)
    (hnormal : Normal options) (hnext : w.checkpoint codec h fault dies = some w') :
    Inv codec options w' := by
  obtain ⟨c, hrunning⟩ := hinv.running hprocess
  have hpublished : ∀ checkpoint wal (w₁ : World B) h₁,
      (w₁.process = if dies then none else some h₁) →
      w₁.ahead = false → h₁.options = h.options → contentOf h₁ = contentOf h →
      w₁.journal.directory =
        (w.journal.directory.publish (w.journal.generation + 1) (exportLocked h)).removeObsolete
          (w.journal.generation + 1) checkpoint wal →
      w₁.journal.generation = w.journal.generation + 1 →
      w₁.journal.attempts = w.journal.attempts → Inv codec options w₁ := by
    intro checkpoint wal w₁ h₁ hsome hahead hoptions hcontent hdirectory hgeneration hattempts
    obtain ⟨hstored, hblank⟩ := hrunning.published hnormal hdirectory
    rw [← hgeneration, ← hcontent] at hstored
    refine inv_agree hsome hahead ((congrArg settings hoptions).trans hrunning.settings_eq) hstored
      ?_ fun hempty => absurd hempty hblank
    rw [hattempts, hcontent]
    exact hrunning.memory
  cases fault with
  | stop steps =>
    cases dies with
    | true =>
      obtain ⟨generation, c', hstored, hkept, hblank⟩ := hrunning.cut hnormal steps
      cases hnext
      exact .down rfl hstored hkept hblank
    | false =>
      have hnext : (if steps ≤ 2 then some _ else none) = some w' := hnext
      split_ifs at hnext with hsteps
      cases hnext
      cases hinv with
      | down hnone =>
        rw [hprocess] at hnone
        cases hnone
      | up hsome hsettings hbehind hstored hkept hblank =>
        rw [hprocess] at hsome
        cases hsome
        have hpos := hstored.le_generation.1
        exact .up rfl hsettings hbehind (hstored.checkpointSteps _ hsteps) hkept
          fun hempty => hblank (blank_of_checkpointSteps hpos hsteps hempty)
      | ahead hsome hsettings hfront hrel hstored hlast hkept hblank =>
        rw [hprocess] at hsome
        cases hsome
        have hpos := hstored.le_generation.1
        exact .ahead rfl hsettings hfront hrel (hstored.checkpointSteps _ hsteps) hlast hkept
          fun hempty => hblank (blank_of_checkpointSteps hpos hsteps hempty)
  | keep checkpoint wal =>
    cases dies <;>
      · cases hnext
        exact hpublished (!checkpoint) (!wal) _ _ rfl rfl rfl rfl rfl rfl rfl
  | none | unopened | tear | late =>
    cases dies <;>
      · cases hnext
        exact hpublished true true _ _ rfl rfl rfl rfl rfl rfl rfl

end Checkpoints

/-- The options as `NewHistory` keeps them, without the epoch. -/
def normalized (options : HistoryOptions) : HistoryOptions :=
  { options with
    maxPacketsPerStream :=
      if options.maxPacketsPerStream ≤ 0 then 256 else options.maxPacketsPerStream
    schemaVersion := if options.schemaVersion = 0 then 1 else options.schemaVersion
    epoch := 0 }

theorem normal_normalized (options : HistoryOptions) : Normal (normalized options) where
  retains := by
    show 0 < if options.maxPacketsPerStream ≤ 0 then 256 else options.maxPacketsPerStream
    split <;> omega
  schema := by
    show (if options.schemaVersion = 0 then 1 else options.schemaVersion) ≠ 0
    split <;> omega

/-- The initial epoch of the journal object. -/
def initialEpochOf (initialEpoch : Nat) (entropy : Entropy) : Nat :=
  if initialEpoch = 0 then newEpoch entropy else initialEpoch

theorem initialEpochOf_ne_zero (initialEpoch : Nat) (entropy : Entropy) :
    initialEpochOf initialEpoch entropy ≠ 0 := by
  unfold initialEpochOf
  split
  · exact newEpoch_ne_zero entropy
  · assumption

theorem Inv.stored (hinv : Inv codec (normalized options) w) (initialEpoch : Nat)
    (entropy : Entropy) :
    ∃ generation c, Stored codec (normalized options) w.journal.directory generation c ∧
      Kept (normalized options) w.journal.attempts c ∧
      (Blank w.journal.directory → returned w.journal.attempts = [] ∧
        c.epoch = initialEpochOf initialEpoch entropy) := by
  obtain ⟨generation, c, hstored, hkept, hblank⟩ :
      ∃ generation c, Stored codec (normalized options) w.journal.directory generation c ∧
        Kept (normalized options) w.journal.attempts c ∧
        (Blank w.journal.directory → returned w.journal.attempts = []) := by
    cases hprocess : w.process with
    | none =>
      cases hinv with
      | down _ hstored hkept hblank => exact ⟨_, _, hstored, hkept, hblank⟩
      | up hsome | ahead hsome =>
        rw [hprocess] at hsome
        cases hsome
    | some =>
      obtain ⟨c, hrunning⟩ := hinv.running hprocess
      exact ⟨_, c, hrunning.stored, hrunning.directory, hrunning.blank⟩
  by_cases hempty : Blank w.journal.directory
  · refine ⟨1, .blank (initialEpochOf initialEpoch entropy),
      .blank hempty (initialEpochOf_ne_zero initialEpoch entropy),
      kept_blank (hblank hempty) _, fun _ => ⟨hblank hempty, rfl⟩⟩
  · exact ⟨generation, c, hstored, hkept, fun h => absurd h hempty⟩

theorem inv_initial : Inv codec (normalized options) (initial : World B) := by
  have hblank : Blank (initial : World B).journal.directory := ⟨rfl, rfl⟩
  exact .down rfl (.blank hblank Nat.one_ne_zero) (kept_blank rfl 1) fun _ => rfl

section Restarts

variable [DecidableEq B]

theorem reopen_stored (hstored : Stored codec (normalized options) w.journal.directory generation c)
    (initialEpoch : Nat) (entropy : Entropy) (now : Int)
    (hblank : Blank w.journal.directory → c.epoch = initialEpochOf initialEpoch entropy) :
    ∃ h, reopen codec options w initialEpoch entropy now = .ok h ∧ contentOf h = c ∧
      settings h.options = normalized options ∧
      h.journal = some
        { newFileHistoryJournal w.journal.directory initialEpoch entropy w.journal.attempts with
          generation } := by
  have hopened : (newFileHistoryJournal w.journal.directory initialEpoch entropy
    w.journal.attempts).directory = w.journal.directory := rfl
  obtain ⟨snapshot, hload, hrel⟩ := hstored.load hopened hblank
  have hfresh : settings (newHistory options entropy : History (FileHistoryJournal B)).options =
    normalized options := rfl
  obtain ⟨h, himport, hsettings, hcontent⟩ := rel_import hrel (normal_normalized options) hfresh now
  refine ⟨{ h with journal := some _ }, ?_, hcontent, hsettings, rfl⟩
  unfold reopen newHistoryWithJournal
  rw [show (fileJournal codec).load _ = _ from hload]
  dsimp only
  rw [himport]

theorem inv_start {initialEpoch : Nat} {entropy : Entropy} {now : Int}
    (hinv : Inv codec (normalized options) w)
    (hnext : next codec options w (.start initialEpoch entropy now) = some w') :
    Inv codec (normalized options) w' := by
  obtain ⟨generation, c, hstored, hkept, hblank⟩ := hinv.stored initialEpoch entropy
  obtain ⟨h, hreopen, rfl, hsettings, hjournal⟩ := reopen_stored hstored initialEpoch entropy now
    fun hempty => (hblank hempty).2
  simp only [next] at hnext
  split_ifs at hnext
  rw [hreopen] at hnext
  simp only [hjournal, Option.getD_some] at hnext
  cases hnext
  exact .up rfl hsettings rfl hstored hkept hblank

/-- No call is made on an unterminated tail or behind the line of a failed call, and the first
record is not cut. -/
def orderly (codec : Codec B) (w : World B) : Action → Prop
  | .call _ fault _ =>
    Terminated codec (w.journal.directory.wal w.journal.generation) ∧ w.ahead = false ∧
      (Blank w.journal.directory → ∀ written, fault = .tear written → written = 0)
  | _ => True

theorem inv_next {action : Action} (hinv : Inv codec (normalized options) w)
    (hguard : orderly codec w action) (hnext : next codec options w action = some w') :
    Inv codec (normalized options) w' := by
  have hnormal := normal_normalized options
  cases action with
  | call call _ dies =>
    obtain ⟨h, hprocess, rfl⟩ := Option.map_eq_some_iff.mp hnext
    obtain ⟨hterminated, hbehind, hfirst⟩ := hguard
    cases hinv with
    | down hnone =>
      rw [hprocess] at hnone
      cases hnone
    | up hsome hsettings _ hstored hkept hblank =>
      rw [hprocess] at hsome
      cases hsome
      exact inv_call hnormal hsettings hbehind hstored hkept hblank hterminated hfirst call dies
    | ahead _ _ hfront =>
      rw [hbehind] at hfront
      cases hfront
  | checkpoint =>
    obtain ⟨h, hprocess, hcheckpoint⟩ := Option.bind_eq_some_iff.mp hnext
    exact inv_checkpoint hinv hprocess hnormal hcheckpoint
  | crash =>
    obtain ⟨h, hprocess, rfl⟩ := Option.map_eq_some_iff.mp hnext
    exact hinv.crash hprocess
  | start => exact inv_start hinv hnext

theorem inv_of_reach (hreach : Reach (next codec options) (· = initial) (orderly codec) w) :
    Inv codec (normalized options) w :=
  hreach.invariant (fun _ hinit => hinit ▸ inv_initial) fun _ _ _ hinv hguard hnext =>
    inv_next hinv hguard hnext

end Restarts

end CubeCore.JournalRuns
