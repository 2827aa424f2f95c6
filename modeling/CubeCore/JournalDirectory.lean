import CubeCore.SnapshotContent

namespace CubeCore.JournalDirectory

open FileJournal HistoryContent SnapshotContent SyncStream List AList Nat FileJournal.Directory

/-- The mutations lead from one content to the other, each recorded with the content before it. -/
def Runs (options : HistoryOptions) : Content → List HistoryMutation → Content → Prop
  | c, [], c' => c' = c
  | c, mutation :: rest, c' =>
    Valid options c mutation ∧ Runs options (c.apply (limit options) mutation) rest c'

variable {c' : Content} {mutations : List HistoryMutation}

theorem Runs.snoc {options} {c : Content} {mutation} (hruns : Runs options c mutations c')
    (hvalid : Valid options c' mutation) :
    Runs options c (mutations ++ [mutation]) (c'.apply (limit options) mutation) := by
  induction mutations generalizing c with
  | nil =>
    obtain rfl : c' = c := hruns
    exact ⟨hvalid, rfl⟩
  | cons first rest ih => exact ⟨hruns.1, ih hruns.2⟩

variable {snapshot : HistorySnapshot}

theorem Runs.rel (hruns : Runs options c mutations c') (hrel : Rel options snapshot c) :
    ∃ snapshot', Rel options snapshot' c' := by
  induction mutations generalizing snapshot c with
  | nil =>
    obtain rfl : c' = c := hruns
    exact ⟨snapshot, hrel⟩
  | cons mutation rest ih =>
    obtain ⟨snapshot₁, -, hrel₁⟩ := rel_replay hrel hruns.1
    exact ih hruns.2 hrel₁

variable {B : Type} {codec : Codec B} {options : HistoryOptions}

def lines (codec : Codec B) (mutations : List HistoryMutation) : List B :=
  mutations.flatMap (line codec)

variable (mutation : HistoryMutation)

theorem lines_cons (mutations : List HistoryMutation) :
    lines codec (mutation :: mutations) = line codec mutation ++ lines codec mutations := rfl

theorem lines_snoc (mutations : List HistoryMutation) (mutation : HistoryMutation) :
    lines codec (mutations ++ [mutation]) = lines codec mutations ++ line codec mutation := by
  simp [lines]

section Replay

variable [DecidableEq B]

variable {tail : List B}

theorem replayBytes_tail (snapshot : HistorySnapshot) (before : List B)
    (htail : codec.newline ∉ tail) : replayBytes codec snapshot before tail = .ok snapshot := by
  induction tail generalizing before with
  | nil => rfl
  | cons byte rest ih =>
    obtain ⟨hbyte, hrest⟩ := not_or.mp (mt mem_cons.mpr htail)
    unfold replayBytes
    rw [if_neg (Ne.symm hbyte), ih _ hrest]

theorem replayBytes_append (snapshot : HistorySnapshot) (before rest : List B)
    (hdata : codec.newline ∉ data) :
    replayBytes codec snapshot before (data ++ rest) =
      replayBytes codec snapshot (before ++ data) rest := by
  induction data generalizing before with
  | nil => simp
  | cons byte data ih =>
    obtain ⟨hbyte, hdata⟩ := not_or.mp (mt mem_cons.mpr hdata)
    rw [cons_append, replayBytes, if_neg (Ne.symm hbyte), ih _ hdata, append_assoc]
    rfl

theorem replayWAL_line (snapshot : HistorySnapshot) (mutation : HistoryMutation) (rest : List B) :
    replayWAL codec snapshot (line codec mutation ++ rest) =
      match replayHistoryMutation snapshot mutation with
      | .error err => .error err
      | .ok snapshot => replayWAL codec snapshot rest := by
  unfold replayWAL line
  rw [append_assoc, replayBytes_append _ _ _ (codec.newline_notMem mutation), nil_append,
    singleton_append, replayBytes, if_pos rfl]
  cases hreplay : replayHistoryMutation snapshot mutation with
  | error | ok => simp only [codec.decode_encode, hreplay]

theorem rel_replayWAL (hrel : Rel options snapshot c) (hruns : Runs options c mutations c')
    (htail : codec.newline ∉ tail) :
    ∃ snapshot', replayWAL codec snapshot (lines codec mutations ++ tail) = .ok snapshot' ∧
      Rel options snapshot' c' := by
  induction mutations generalizing snapshot c with
  | nil =>
    obtain rfl : c' = c := hruns
    exact ⟨snapshot, replayBytes_tail snapshot [] htail, hrel⟩
  | cons mutation rest ih =>
    obtain ⟨hvalid, hruns⟩ := hruns
    obtain ⟨snapshot₁, hreplay, hrel₁⟩ := rel_replay hrel hvalid
    obtain ⟨snapshot', hrest, hrel'⟩ := ih hrel₁ hruns
    refine ⟨snapshot', ?_, hrel'⟩
    rwa [lines_cons, append_assoc, replayWAL_line, hreplay]

end Replay

theorem newest_eq_some :
    newest directory = some generation ↔
      (generation ∈ directory.checkpoints.keys ∧ 0 < generation) ∧
        ∀ other ∈ directory.checkpoints.keys, other ≤ generation := by
  rw [newest, max?_eq_some_iff]
  simp only [mem_filter, decide_eq_true_eq]
  constructor
  · rintro ⟨hmem, hmax⟩
    refine ⟨hmem, ?_⟩
    intro other hother
    rcases Nat.eq_zero_or_pos other with rfl | hpos
    · exact zero_le _
    · exact hmax other ⟨hother, hpos⟩
  · rintro ⟨hmem, hmax⟩
    exact ⟨hmem, fun other hother => hmax other hother.1⟩

theorem newest_eq_none (h : newest directory = none) :
    ∀ other ∈ directory.checkpoints.keys, other = 0 := by
  intro other hother
  rw [newest, max?_eq_none_iff, filter_eq_nil_iff] at h
  have := h other hother
  simp only [decide_eq_true_eq] at this
  omega

/-- Nothing was ever recorded, or only the file was created. -/
def Blank (directory : Directory B) : Prop := newest directory = none ∧ directory.wal 1 = []

/-- The content a directory holds, and its generation. A blank one takes the epoch of its
process. -/
inductive Stored (codec : Codec B) (options : HistoryOptions) (directory : Directory B) :
    Nat → Content → Prop
  | blank : Blank directory → epoch ≠ 0 → Stored codec options directory 1 (.blank epoch)
  | first {epoch : Nat} {mutation : HistoryMutation} {mutations : List HistoryMutation}
      {tail : List B} {c : Content} : newest directory = none → epoch ≠ 0 →
      directory.wal 1 = lines codec (mutation :: mutations) ++ tail → codec.newline ∉ tail →
      Runs options (.blank epoch) (mutation :: mutations) c →
      Stored codec options directory 1 c
  | later {generation : Nat} {snapshot : HistorySnapshot} {mutations : List HistoryMutation}
      {tail : List B} {c₀ c : Content} : newest directory = some generation →
      directory.checkpoints.lookup generation = some ⟨generation, snapshot⟩ →
      directory.wals.lookup generation = some (lines codec mutations ++ tail) →
      codec.newline ∉ tail → Rel options snapshot c₀ → Runs options c₀ mutations c →
      Stored codec options directory generation c

variable {directory directory' : Directory B} {generation : Nat} {c : Content}

variable (hstored : Stored codec options directory generation c)

theorem Directory.lookup_wal (h : directory.wal generation = bytes) (hne : bytes ≠ []) :
    directory.wals.lookup generation = some bytes := by
  unfold wal at h
  cases hlookup : directory.wals.lookup generation with
  | none =>
    rw [hlookup] at h
    exact absurd h.symm hne
  | some =>
    rw [hlookup] at h
    exact congrArg some h

theorem line_ne_nil : line codec mutation ≠ [] := by
  simp [line]

include hstored in
theorem Stored.load [DecidableEq B] {journal} (hdirectory : journal.directory = directory)
    (hblank : Blank directory → c.epoch = journal.initialEpoch) :
    ∃ snapshot, load codec journal = (.ok snapshot, { journal with generation }) ∧
      Rel options snapshot c := by
  subst hdirectory
  cases hstored with
  | @blank epoch hempty hepoch =>
    have hsame : epoch = journal.initialEpoch := hblank hempty
    refine ⟨⟨historySnapshotVersion, epoch, []⟩, ?_, rel_blank options hepoch⟩
    unfold FileJournal.load
    rw [hempty.1]
    have hwal := hempty.2
    unfold wal at hwal
    dsimp only
    cases hlookup : journal.directory.wals.lookup 1 with
    | none => rw [hsame]
    | some bytes =>
      rw [hlookup] at hwal
      obtain rfl : bytes = [] := hwal
      rw [hsame]
      rfl
  | @first _ mutation mutations tail _ hnewest hepoch hwal htail hruns =>
    obtain ⟨snapshot, hreplay, hrel⟩ := rel_replayWAL (rel_blank options hepoch) hruns htail
    refine ⟨snapshot, ?_, hrel⟩
    rw [lines_cons, append_assoc, replayWAL_line, ← replayHistoryMutation_zero hruns.1,
      ← replayWAL_line, ← append_assoc, ← lines_cons] at hreplay
    have hne : lines codec (mutation :: mutations) ++ tail ≠ [] := by
      rw [lines_cons, append_assoc]
      exact append_ne_nil_of_left_ne_nil (line_ne_nil mutation) _
    unfold FileJournal.load
    rw [hnewest]
    dsimp only
    rw [Directory.lookup_wal hwal hne]
    dsimp only
    rw [if_pos (length_pos_iff.mpr hne), hreplay]
  | later hnewest hcheckpoint hwal htail hrel₀ hruns =>
    obtain ⟨snapshot, hreplay, hrel⟩ := rel_replayWAL hrel₀ hruns htail
    refine ⟨snapshot, ?_, hrel⟩
    unfold FileJournal.load loadGeneration
    rw [hnewest]
    dsimp only
    rw [hcheckpoint]
    dsimp only
    rw [if_neg (not_not.mpr rfl), hwal]
    dsimp only
    rw [hreplay]

include hstored in
theorem Stored.rel : ∃ snapshot, Rel options snapshot c := by
  cases hstored with
  | blank _ hepoch => exact ⟨_, rel_blank options hepoch⟩
  | first _ hepoch _ _ hruns => exact hruns.rel (rel_blank options hepoch)
  | later _ _ _ _ hrel hruns => exact hruns.rel hrel

include hstored in
theorem Stored.le_generation :
    0 < generation ∧ ∀ other ∈ directory.checkpoints.keys, other ≤ generation := by
  cases hstored with
  | blank hblank =>
    refine ⟨one_pos, fun other hother => ?_⟩
    rw [newest_eq_none hblank.1 other hother]
    exact zero_le 1
  | first hnewest =>
    refine ⟨one_pos, fun other hother => ?_⟩
    rw [newest_eq_none hnewest other hother]
    exact zero_le 1
  | later hnewest =>
    obtain ⟨⟨-, hpos⟩, hmax⟩ := newest_eq_some.mp hnewest
    exact ⟨hpos, hmax⟩

include hstored in
theorem Stored.generation_eq (hnewest : newest directory = none) : generation = 1 := by
  cases hstored with
  | blank | first => rfl
  | later hsome =>
    rw [hnewest] at hsome
    cases hsome

include hstored in
theorem Stored.congr (hcheckpoints : directory'.checkpoints = directory.checkpoints)
    (hwal : directory'.wals.lookup generation = directory.wals.lookup generation) :
    Stored codec options directory' generation c := by
  have hnewest : newest directory' = newest directory := by
    unfold newest
    rw [hcheckpoints]
  have hbytes : directory'.wal generation = directory.wal generation := by
    unfold wal
    rw [hwal]
  cases hstored with
  | blank hblank hepoch =>
    exact .blank ⟨hnewest.trans hblank.1, hbytes.trans hblank.2⟩ hepoch
  | first hnone hepoch hlines htail hruns =>
    exact .first (hnewest.trans hnone) hepoch (hbytes.trans hlines) htail hruns
  | later hsome hcheckpoint hlines htail hrel hruns =>
    exact .later (hnewest.trans hsome) (hcheckpoints ▸ hcheckpoint) (hwal.trans hlines) htail
      hrel hruns

/-- The WAL has no unterminated tail. -/
def Terminated (codec : Codec B) (bytes : List B) : Prop :=
  bytes = [] ∨ bytes.getLast? = some codec.newline

theorem Terminated.tail_eq_nil {tail : List B}
    (hterminated : Terminated codec (lines codec mutations ++ tail))
    (htail : codec.newline ∉ tail) : tail = [] := by
  rcases hterminated with hnil | hlast
  · exact (append_eq_nil_iff.mp hnil).2
  cases hcase : tail.getLast? with
  | none => exact getLast?_eq_none_iff.mp hcase
  | some byte =>
    rw [getLast?_append, hcase] at hlast
    obtain rfl : byte = codec.newline := Option.some.inj hlast
    exact absurd (mem_of_getLast? hcase) htail

theorem lookup_appendWal (directory : Directory B) (generation : Nat) (data : List B) :
    (directory.appendWal generation data).wals.lookup generation =
      some (directory.wal generation ++ data) :=
  lookup_insert _

theorem wal_appendWal (directory : Directory B) (generation : Nat) (data : List B) :
    (directory.appendWal generation data).wal generation = directory.wal generation ++ data := by
  unfold wal
  rw [lookup_appendWal]
  rfl

theorem not_blank_append (directory : Directory B)
    (hgeneration : newest directory = none → generation = 1) (hdata : data ≠ []) :
    ¬ Blank (directory.appendWal generation data) := by
  rintro ⟨hnewest, hwal⟩
  obtain rfl := hgeneration hnewest
  exact hdata (append_eq_nil_iff.mp hwal).2

theorem blank_of_append (hgeneration : newest directory = none → generation = 1)
    (hblank : Blank (directory.appendWal generation data)) : Blank directory := by
  obtain ⟨hnewest, hwal⟩ := hblank
  obtain rfl := hgeneration hnewest
  exact ⟨hnewest, (append_eq_nil_iff.mp hwal).1⟩

theorem wal_of_lookup (h : directory.wals.lookup generation = some bytes) :
    directory.wal generation = bytes := by
  unfold wal
  rw [h]
  rfl

include hstored in
theorem Stored.append_line {mutation}
    (hvalid : Valid options c mutation)
    (hterminated : Terminated codec (directory.wal generation)) :
    Stored codec options (directory.appendWal generation (line codec mutation)) generation
      (c.apply (limit options) mutation) := by
  cases hstored with
  | blank hblank hepoch =>
    have hruns : Runs options (.blank _) [mutation] _ := ⟨hvalid, rfl⟩
    refine .first hblank.1 hepoch ?_ not_mem_nil hruns
    rw [wal_appendWal, hblank.2]
    simp [lines]
  | first hnewest hepoch hwal htail hruns =>
    rw [hwal] at hterminated
    obtain rfl := hterminated.tail_eq_nil htail
    refine .first hnewest hepoch ?_ not_mem_nil (hruns.snoc hvalid)
    rw [wal_appendWal, hwal, append_nil, append_nil]
    exact (lines_snoc (_ :: _) mutation).symm
  | later hnewest hcheckpoint hwal htail hrel hruns =>
    rw [wal_of_lookup hwal] at hterminated
    obtain rfl := hterminated.tail_eq_nil htail
    refine .later hnewest hcheckpoint ?_ not_mem_nil hrel (hruns.snoc hvalid)
    rw [lookup_appendWal, wal_of_lookup hwal, append_nil, append_nil, lines_snoc]

include hstored in
theorem Stored.append_torn (hdata : codec.newline ∉ data) (hblank : Blank directory → data = []) :
    Stored codec options (directory.appendWal generation data) generation c := by
  have hnot : ∀ {tail : List B}, codec.newline ∉ tail → codec.newline ∉ tail ++ data := by
    intro tail htail hmem
    exact (mem_append.mp hmem).elim htail hdata
  cases hstored with
  | blank hempty hepoch =>
    refine .blank ⟨hempty.1, ?_⟩ hepoch
    rw [wal_appendWal, hempty.2, hblank hempty]
    rfl
  | first hnewest hepoch hwal htail hruns =>
    refine .first hnewest hepoch ?_ (hnot htail) hruns
    rw [wal_appendWal, hwal, append_assoc]
  | later hnewest hcheckpoint hwal htail hrel hruns =>
    refine .later hnewest hcheckpoint ?_ (hnot htail) hrel hruns
    rw [lookup_appendWal, wal_of_lookup hwal, append_assoc]

include hstored in
theorem Stored.checkpointSteps (snapshot : HistorySnapshot) (hsteps : steps ≤ 2) :
    Stored codec options (directory.checkpointSteps (generation + 1) snapshot steps)
      generation c := by
  have hne : generation ≠ generation + 1 := by omega
  match steps, hsteps with
  | 0, _ => exact hstored
  | 1, _ => exact hstored.congr rfl (lookup_erase_ne hne)
  | 2, _ => exact hstored.congr rfl (lookup_insert_ne hne)

theorem lookup_removeObsolete (directory : Directory B) (current : Nat) (checkpoint wal : Bool) :
    (directory.removeObsolete current checkpoint wal).checkpoints.lookup current =
        directory.checkpoints.lookup current ∧
      (directory.removeObsolete current checkpoint wal).wals.lookup current =
        directory.wals.lookup current ∧
      ∀ other ∈ (directory.removeObsolete current checkpoint wal).checkpoints.keys,
        other ∈ directory.checkpoints.keys := by
  unfold removeObsolete
  split
  · exact ⟨rfl, rfl, fun _ => id⟩
  have hne : current ≠ current - 2 := by omega
  have hkeys : ∀ other ∈ (directory.checkpoints.erase (current - 2)).keys,
      other ∈ directory.checkpoints.keys := by
    intro other hmem
    exact (mem_erase.mp hmem).2
  cases checkpoint <;> cases wal
  · exact ⟨rfl, rfl, fun _ => id⟩
  · exact ⟨rfl, lookup_erase_ne hne, fun _ => id⟩
  · exact ⟨lookup_erase_ne hne, rfl, hkeys⟩
  · exact ⟨lookup_erase_ne hne, lookup_erase_ne hne, hkeys⟩

theorem stored_publish {checkpoint wal : Bool} (hrel : Rel options snapshot c)
    (hmax : ∀ other ∈ directory.checkpoints.keys, other ≤ generation)
    (heq : directory' = (directory.publish (generation + 1) snapshot).removeObsolete
      (generation + 1) checkpoint wal) :
    newest directory' = some (generation + 1) ∧
      Stored codec options directory' (generation + 1) c := by
  obtain ⟨hcheckpoint, hwal, hkeys⟩ := lookup_removeObsolete
    (directory.publish (generation + 1) snapshot) (generation + 1) checkpoint wal
  rw [← heq] at hcheckpoint hwal hkeys
  have hpublished : directory'.checkpoints.lookup (generation + 1) =
      some ⟨generation + 1, snapshot⟩ := hcheckpoint.trans (lookup_insert _)
  have hempty : directory'.wals.lookup (generation + 1) = some [] := hwal.trans (lookup_insert _)
  have hnewest : newest directory' = some (generation + 1) := by
    rw [newest_eq_some]
    refine ⟨⟨?_, succ_pos _⟩, ?_⟩
    · exact lookup_isSome.mp (congrArg Option.isSome hpublished)
    intro other hmem
    rcases (mem_insert _).mp (hkeys other hmem) with rfl | hold
    · exact le_rfl
    · exact (hmax other hold).trans (le_succ _)
  have hruns : Runs options c [] c := rfl
  exact ⟨hnewest, .later hnewest hpublished hempty not_mem_nil hrel hruns⟩

end CubeCore.JournalDirectory
