import Mathlib.Data.BitVec

namespace CubeCore.SubjectSync

structure SyncProfile where
  key : String
  lod : BitVec 8
  schemaVersion : BitVec 32
deriving DecidableEq

def SyncProfile.normalize (p : SyncProfile) : SyncProfile :=
  if p.key = "" then { p with key := "default" } else p

theorem SyncProfile.normalize_normalize (p : SyncProfile) :
    p.normalize.normalize = p.normalize := by
  unfold normalize
  split
  · rfl
  · rfl

/-- The order of the three comparisons of `sort.Slice`. -/
def SyncProfile.before (p q : SyncProfile) : Bool :=
  if p.key ≠ q.key then p.key < q.key
  else if p.lod ≠ q.lod then p.lod < q.lod
  else p.schemaVersion ≤ q.schemaVersion

def normalizeSyncProfiles (profiles : List SyncProfile) : List SyncProfile :=
  let profiles := if profiles.isEmpty then [⟨"default", 0, 0⟩] else profiles
  (profiles.map SyncProfile.normalize).dedup.mergeSort SyncProfile.before

theorem normalize_of_mem (h : p ∈ normalizeSyncProfiles profiles) : p.normalize = p := by
  unfold normalizeSyncProfiles at h
  rw [List.mem_mergeSort, List.mem_dedup] at h
  obtain ⟨q, -, rfl⟩ := List.mem_map.mp h
  exact q.normalize_normalize

inductive SyncError where
  | closed
  | notDirty
  | inFlight
  | packerRequired
  | stalePrepare
  | finished
  | pack (subjectID : Int) (key : String) (cause : String)
  | cause (text : String)
deriving DecidableEq

def syncFullReasonNone : BitVec 32 := 0
def syncFullReasonDirty : BitVec 32 := 1
def syncFullReasonResync : BitVec 32 := 2

structure Subject where
  subjectID : Int
  ns : String
  subjectKind : BitVec 32
deriving DecidableEq

structure SubjectSyncState where
  enabled : Bool
  subject : Subject
  version : Nat
  dirtyMask : BitVec 64
  fullDirty : Bool
  fullReason : BitVec 32
  dirtyGeneration : Nat
  packer : Bool
  nextToken : Nat
  inflightToken : Nat
  lastError : Option SyncError
deriving DecidableEq

def newSubjectSyncState (subject : Subject) (packer : Bool) : SubjectSyncState where
  enabled := true
  subject := subject
  version := 0
  dirtyMask := 0
  fullDirty := false
  fullReason := syncFullReasonNone
  dirtyGeneration := 0
  packer := packer
  nextToken := 0
  inflightToken := 0
  lastError := none

structure SubjectSyncUpdate (P : Type) where
  subject : Subject
  profile : SyncProfile
  version : Nat
  baseVersion : Nat
  mask : BitVec 64
  full : Bool
  reason : BitVec 32
  payload : P
deriving DecidableEq

/-- What `Prepare` reads before it calls the packer. -/
structure Ticket where
  subject : Subject
  token : Nat
  generation : Nat
  baseVersion : Nat
  version : Nat
  mask : BitVec 64
  full : Bool
  reason : BitVec 32
deriving DecidableEq

structure PreparedSubjectSync (P : Type) where
  token : Nat
  generation : Nat
  baseVersion : Nat
  version : Nat
  updates : List (SubjectSyncUpdate P)
deriving DecidableEq

structure SubjectSyncPacker (P : Type) where
  packSubjectSnapshot : SyncProfile → Except String P
  packSubjectDelta : SyncProfile → BitVec 64 → Except String P

namespace SubjectSyncState

variable (s : SubjectSyncState)

def pendingDirty : Bool := s.dirtyMask ≠ 0 || s.fullDirty

def markDirty (mask : BitVec 64) : SubjectSyncState :=
  if mask = 0 then s
  else if s.enabled then
    { s with dirtyMask := s.dirtyMask ||| mask, dirtyGeneration := s.dirtyGeneration + 1 }
  else s

def markFullDirty (reason : BitVec 32) : SubjectSyncState :=
  if s.enabled then
    { s with
      fullDirty := true
      fullReason := if reason = syncFullReasonNone then syncFullReasonDirty else reason
      dirtyMask := 0
      dirtyGeneration := s.dirtyGeneration + 1 }
  else s

/-- The ticket of a prepare that starts in `s`. -/
def ticket : Ticket where
  subject := s.subject
  token := s.nextToken + 1
  generation := s.dirtyGeneration
  baseVersion := s.version
  version := s.version + 1
  mask := s.dirtyMask
  full := s.fullDirty
  reason :=
    if s.fullDirty && s.fullReason = syncFullReasonNone then syncFullReasonDirty else s.fullReason

/-- `prepareLocked` up to the first unlock of `mu`. -/
def startPrepare : SubjectSyncState × Except SyncError Ticket :=
  if !s.enabled then (s, .error .closed)
  else if s.inflightToken ≠ 0 then (s, .error .inFlight)
  else if s.dirtyMask = 0 && !s.fullDirty then (s, .error .notDirty)
  else if !s.packer then
    ({ s with lastError := some .packerRequired }, .error .packerRequired)
  else
    ({ s with nextToken := s.nextToken + 1, inflightToken := s.nextToken + 1 }, .ok s.ticket)

def failPrepare (token : Nat) (err : SyncError) : SubjectSyncState :=
  { s with
    inflightToken := if s.inflightToken = token then 0 else s.inflightToken
    lastError := some err }

/-- What `CaptureSnapshot` reads before it calls the packer. -/
def snapshotVersion : Except SyncError Nat :=
  if !s.enabled then .error .closed
  else if !s.packer then .error .packerRequired
  else .ok s.version

def setSubjectSyncError (err : Option SyncError) : SubjectSyncState :=
  { s with lastError := err }

def close : SubjectSyncState :=
  { s with
    enabled := false
    dirtyMask := 0
    fullDirty := false
    fullReason := syncFullReasonNone
    inflightToken := 0
    packer := false }

/-- `Commit` after its CAS on `finished`. -/
def commit {P : Type} (s : SubjectSyncState) (p : PreparedSubjectSync P) :
    SubjectSyncState × Option SyncError :=
  if !s.enabled || s.inflightToken ≠ p.token || s.version ≠ p.baseVersion then
    ({ s with inflightToken := if s.inflightToken = p.token then 0 else s.inflightToken },
      some .stalePrepare)
  else if s.dirtyGeneration = p.generation then
    ({ s with
        version := p.version
        dirtyMask := 0
        fullDirty := false
        fullReason := syncFullReasonNone
        inflightToken := 0
        lastError := none },
      none)
  else ({ s with version := p.version, inflightToken := 0, lastError := none }, none)

/-- `AbortWithError` after its CAS on `finished`. -/
def abort {P : Type} (s : SubjectSyncState) (p : PreparedSubjectSync P) (cause : Option SyncError) :
    SubjectSyncState × Option SyncError :=
  if s.inflightToken ≠ p.token then (s, some .stalePrepare)
  else ({ s with inflightToken := 0, lastError := cause }, none)

end SubjectSyncState

section Packing

variable {P : Type}

def Ticket.update (t : Ticket) (profile : SyncProfile) (payload : P) : SubjectSyncUpdate P where
  subject := t.subject
  profile := profile
  version := t.version
  baseVersion := t.baseVersion
  mask := t.mask
  full := t.full
  reason := t.reason
  payload := payload

def Ticket.pack (t : Ticket) (packer : SubjectSyncPacker P) (profile : SyncProfile) :
    Except String P :=
  if t.full then packer.packSubjectSnapshot profile else packer.packSubjectDelta profile t.mask

/-- The loop over the profiles; the error is that of the first that cannot be packed. -/
def Ticket.updates (t : Ticket) (packer : SubjectSyncPacker P) :
    List SyncProfile → Except (SyncProfile × String) (List (SubjectSyncUpdate P))
  | [] => .ok []
  | profile :: profiles =>
    match t.pack packer profile with
    | .error err => .error (profile, err)
    | .ok payload => (t.updates packer profiles).map (t.update profile payload :: ·)

def Ticket.prepared (t : Ticket) (updates : List (SubjectSyncUpdate P)) :
    PreparedSubjectSync P where
  token := t.token
  generation := t.generation
  baseVersion := t.baseVersion
  version := t.version
  updates := updates

theorem Ticket.pack_of_mem_updates {t : Ticket} {packer : SubjectSyncPacker P}
    {profiles : List SyncProfile} {updates : List (SubjectSyncUpdate P)}
    (h : t.updates packer profiles = .ok updates) (hu : u ∈ updates) :
    u.profile ∈ profiles ∧ ∃ payload, t.pack packer u.profile = .ok payload ∧
      u = t.update u.profile payload := by
  induction profiles generalizing updates with
  | nil =>
    cases h
    cases hu
  | cons profile profiles ih =>
    simp only [Ticket.updates] at h
    cases hpack : t.pack packer profile with
    | error =>
      rw [hpack] at h
      cases h
    | ok payload =>
      rw [hpack] at h
      cases hrest : t.updates packer profiles with
      | error =>
        rw [hrest] at h
        cases h
      | ok =>
        rw [hrest] at h
        cases h
        rcases List.mem_cons.mp hu with rfl | hmem
        · exact ⟨.head _, payload, hpack, rfl⟩
        · obtain ⟨hprofile, hpacked⟩ := ih hrest hmem
          exact ⟨.tail _ hprofile, hpacked⟩

end Packing

section Sections

variable {s : SubjectSyncState} {P : Type} {p : PreparedSubjectSync P}

open SubjectSyncState

theorem startPrepare_ok (h : s.startPrepare = (s', .ok t)) :
    s.enabled = true ∧ s.inflightToken = 0 ∧ t = s.ticket ∧
      s' = { s with nextToken := s.nextToken + 1, inflightToken := s.nextToken + 1 } := by
  unfold startPrepare at h
  split_ifs at h with henabled hinflight
  · cases h
  · cases h
  · cases h
  · cases h
  · cases h
    exact ⟨by simpa using henabled, by simpa using hinflight, rfl, rfl⟩

theorem startPrepare_error (h : s.startPrepare = (s', .error err)) :
    ∃ e, s' = { s with lastError := e } := by
  revert h
  fun_cases startPrepare s with
  | case5 => exact nofun
  | _ =>
    rintro ⟨⟩
    exact ⟨_, rfl⟩

inductive Committed (s : SubjectSyncState) (p : PreparedSubjectSync P) :
    SubjectSyncState × Option SyncError → Prop where
  | stale (hstale : s.enabled = false ∨ s.inflightToken ≠ p.token ∨ s.version ≠ p.baseVersion) :
      Committed s p
        ({ s with inflightToken := if s.inflightToken = p.token then 0 else s.inflightToken },
          some .stalePrepare)
  | clean (henabled : s.enabled = true) (htoken : s.inflightToken = p.token)
      (hversion : s.version = p.baseVersion) (hgen : s.dirtyGeneration = p.generation) :
      Committed s p
        ({ s with
            version := p.version
            dirtyMask := 0
            fullDirty := false
            fullReason := syncFullReasonNone
            inflightToken := 0
            lastError := none },
          none)
  | dirty (henabled : s.enabled = true) (htoken : s.inflightToken = p.token)
      (hversion : s.version = p.baseVersion) (hgen : s.dirtyGeneration ≠ p.generation) :
      Committed s p ({ s with version := p.version, inflightToken := 0, lastError := none }, none)

theorem committed_commit (s : SubjectSyncState) (p : PreparedSubjectSync P) :
    Committed s p (s.commit p) := by
  unfold commit
  split
  · rename_i hstale
    refine .stale ?_
    simpa [or_assoc] using hstale
  rename_i hlive
  simp only [Bool.or_eq_true, Bool.not_eq_true', decide_eq_true_eq, not_or, ne_eq,
    Decidable.not_not, Bool.not_eq_false] at hlive
  obtain ⟨⟨henabled, htoken⟩, hversion⟩ := hlive
  split
  · rename_i hgen
    exact .clean henabled htoken hversion hgen
  · rename_i hgen
    exact .dirty henabled htoken hversion hgen

theorem abort_fst (s : SubjectSyncState) (p : PreparedSubjectSync P) (cause : Option SyncError) :
    ∃ e, (s.abort p cause).1 =
      { s with
        inflightToken := if s.inflightToken = p.token then 0 else s.inflightToken
        lastError := e } := by
  unfold abort
  split
  · exact ⟨s.lastError, rfl⟩
  · rename_i hlive
    exact ⟨cause, by rw [if_pos (Decidable.not_not.mp hlive)]⟩

end Sections

end CubeCore.SubjectSync
