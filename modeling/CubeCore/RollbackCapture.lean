import CubeCore.TransactionCalls
import CubeCore.UndoLog

namespace CubeCore.RollbackCapture

open RollbackTx TransactionCalls UndoLog Function List Rollback

variable {V : Type}

section Capture

def owner : Rollback V → Nat
  | .dirty dao _ => dao
  | .state dao _ _ => dao
  | .undo dao _ _ => dao

/-- The rollback functions of a capture restore what the store held. -/
def Faithful (store : Store V) : Rollback V → Prop
  | .dirty dao snapshot => (store dao).dirty = some snapshot
  | .state dao fields tracked => fields = (store dao).fields ∧ tracked = (store dao).dirty
  | .undo _ _ _ => False

def Covered (store : Store V) (rollbacks : List (Rollback V)) (dao : Nat) :
    RollbackPolicy → Prop
  | .none => True
  | .state => .state dao (store dao).fields (store dao).dirty ∈ rollbacks
  | .undo => ∀ snapshot, (store dao).dirty = some snapshot → .dirty dao snapshot ∈ rollbacks

theorem Covered.mono (hsub : rollbacks ⊆ rollbacks') (h : Covered store rollbacks dao policy) :
    Covered store
    rollbacks' dao policy := by
  cases policy with
  | none => trivial
  | state => exact hsub h
  | undo => exact fun snapshot hs => hsub (h snapshot hs)

/-- A part of the capture that has seen the DAOs `daos`. -/
structure Captures (store : Store V) (daos : List Nat) (tx tx' : Tx V) : Prop where
  logged : Logged tx → Logged tx'
  undoKeys : tx'.undoKeys = tx.undoKeys
  policy : tx'.policy = tx.policy
  keeps : tx.rollbacks ⊆ tx'.rollbacks
  faithful : (∀ rb ∈ tx.rollbacks, Faithful store rb) → ∀ rb ∈ tx'.rollbacks, Faithful store rb
  covers : Logged tx → ∀ dao ∈ daos, Covered store tx'.rollbacks dao tx.policy
  owners : ∀ rb ∈ tx'.rollbacks, rb ∈ tx.rollbacks ∨ owner rb ∈ daos

variable {env : Env V} {store : Store V} {tx tx' tx'' : Tx V}

theorem Captures.trans (h : Captures store daos tx tx') (h' : Captures store daos' tx' tx'') :
    Captures store (daos ++ daos') tx tx'' where
  logged := h'.logged ∘ h.logged
  undoKeys := h'.undoKeys.trans h.undoKeys
  policy := h'.policy.trans h.policy
  keeps := fun _ hrb => h'.keeps (h.keeps hrb)
  faithful := h'.faithful ∘ h.faithful
  covers := by
    intro hlog
    rw [forall_mem_append]
    constructor
    · exact fun dao hdao => (h.covers hlog dao hdao).mono h'.keeps
    · exact h.policy ▸ h'.covers (h.logged hlog)
  owners := by
    intro rb hrb
    rcases h'.owners rb hrb with hmem | hnew
    · exact (h.owners rb hmem).imp_right (mem_append_left _)
    · exact .inr (mem_append_right _ hnew)

theorem captures_calls (hc : Calls tx tx') : Captures store [] tx tx' := by
  have h := sameRollbacks_calls hc
  refine ⟨fun hlog => logged_calls hlog hc, h.undoKeys, h.policy, ?_, ?_, ?_, ?_⟩
  · rw [h.rollbacks]
    exact fun _ => id
  · rw [h.rollbacks]
    exact id
  · simp
  · rw [h.rollbacks]
    exact fun _ => .inl

theorem captures_remoteWrite (b : Bool) : Captures store [] tx { tx with remoteWrite := b } :=
  ⟨fun h => { h with }, rfl, rfl, fun _ => id, id, by simp, fun _ => .inl⟩

theorem captures_deferRollback (hrb : Faithful store rb) (howner : owner rb = dao)
    (hcov : Covered store [rb] dao tx.policy) :
    Captures store [dao] tx (tx.deferRollback rb) := by
  unfold Tx.deferRollback
  split_ifs with hclosed
  · refine ⟨fun h => { h with }, rfl, rfl, ?_, ?_, ?_, ?_⟩
    · simp
    · intro h
      rw [forall_mem_append, forall_mem_singleton]
      exact ⟨h, hrb⟩
    · intro _ dao' hdao
      rw [mem_singleton.mp hdao]
      exact hcov.mono (by simp)
    · intro rb' hrb'
      refine (mem_append.mp hrb').imp_right fun hmem => ?_
      rw [mem_singleton.mp hmem]
      exact mem_singleton.mpr howner
  · exact ⟨id, rfl, rfl, fun _ => id, id, fun hlog => absurd hlog.isOpen hclosed, fun _ => .inl⟩

theorem captures_captureDao (hp : tx.policy ≠ .none) (h : captureDao env store tx dao = .ok tx') :
    Captures store [dao] tx tx' := by
  simp only [captureDao] at h
  split_ifs at h with hundo
  · split at h
    · rename_i snapshot hs
      cases h
      refine captures_deferRollback hs rfl ?_
      rw [hundo]
      intro snapshot' hs'
      rw [hs, Option.some.injEq] at hs'
      simp [hs']
    rename_i hs
    cases h
    refine ⟨id, rfl, rfl, fun _ => id, id, ?_, fun _ => .inl⟩
    rw [hundo]
    intro _ dao' hdao snapshot hsnap
    rw [mem_singleton.mp hdao, hs] at hsnap
    cases hsnap
  · have hstate : tx.policy = .state := by
      cases hpol : tx.policy with
      | none => exact absurd hpol hp
      | state => rfl
      | undo => exact absurd hpol hundo
    have hcap : Captures store [dao] tx
        (tx.deferRollback (.state dao (store dao).fields (store dao).dirty)) :=
      captures_deferRollback ⟨rfl, rfl⟩ rfl (hstate ▸ mem_singleton.mpr rfl)
    split at h
    · cases h
      exact hcap
    · cases h
      exact hcap
    · cases h
    · cases h

theorem captures_registerOptional
    (h : registerOptional env tx remoteManaged participant = (tx', err)) :
    Captures store [] tx tx' := by
  unfold registerOptional at h
  split at h
  · split at h
    · cases h
      exact captures_calls .refl
    rename_i p _
    have hc := called_registerCommitParticipant tx env.comparable p
    rw [h] at hc
    exact captures_calls (.single hc)
  · cases h
    exact captures_calls .refl

theorem captures_captureDaos (hp : tx.policy ≠ .none)
    (h : captureDaos env store remoteManaged daos tx = .ok tx') : Captures store daos tx tx' := by
  induction daos generalizing tx with
  | nil =>
    cases h
    exact captures_calls .refl
  | cons dao daos ih =>
    simp only [captureDaos] at h
    split at h
    · cases h
    rename_i txr hreg
    have hr : Captures store [] tx txr := captures_registerOptional hreg
    cases hdao : captureDao env store txr dao with
    | error =>
      rw [hdao] at h
      cases h
    | ok =>
      rw [hdao] at h
      have hd := captures_captureDao (hr.policy ▸ hp) hdao
      exact (hr.trans hd).trans (ih ((hr.trans hd).policy ▸ hp) h)

theorem captures_captureEntity {id : Int} (hp : tx.policy ≠ .none)
    (h : captureEntity env store remoteBatch id tx = .ok tx') :
    Captures store (env.entity id).daos tx tx' := by
  simp only [captureEntity] at h
  split_ifs at h
  split at h
  · cases h
  rename_i txr hreg
  have hr : Captures store [] tx txr :=
    (captures_remoteWrite _).trans (captures_registerOptional hreg)
  have hpr : txr.policy ≠ .none := hr.policy ▸ hp
  rw [if_neg hpr] at h
  split at h
  · cases h
  · exact hr.trans (captures_captureDaos hpr h)

theorem captures_captureEntities (hp : tx.policy ≠ .none)
    (h : captureEntities env store remoteBatch es seen tx = .ok tx') :
    ∃ daos, Captures store daos tx tx' ∧
      (∀ id, some id ∈ es → id ∉ seen → (env.entity id).daos ⊆ daos) ∧
      ∀ dao ∈ daos, ∃ id, some id ∈ es ∧ dao ∈ (env.entity id).daos := by
  fun_induction captureEntities env store remoteBatch es seen tx with
  | case1 =>
    cases h
    exact ⟨[], captures_calls .refl, by simp, by simp⟩
  | case2 es seen tx ih =>
    obtain ⟨daos, hcap, hall, hfrom⟩ := ih hp h
    refine ⟨daos, hcap, fun id hid => hall id (by simpa using hid), fun dao hdao => ?_⟩
    obtain ⟨id, hid, hmem⟩ := hfrom dao hdao
    exact ⟨id, by simp [hid], hmem⟩
  | case3 id es seen tx hseen ih =>
    obtain ⟨daos, hcap, hall, hfrom⟩ := ih hp h
    refine ⟨daos, hcap, fun id' hid hnot => ?_, fun dao hdao => ?_⟩
    · rcases mem_cons.mp hid with heq | hmem
      · cases heq
        exact absurd hseen hnot
      · exact hall id' hmem hnot
    · obtain ⟨id', hid, hmem⟩ := hfrom dao hdao
      exact ⟨id', by simp [hid], hmem⟩
  | case4 id es seen tx hseen ih =>
    cases hent : captureEntity env store remoteBatch id tx with
    | error =>
      rw [hent] at h
      cases h
    | ok txe =>
      rw [hent] at h
      have he := captures_captureEntity hp hent
      obtain ⟨daos, hcap, hall, hfrom⟩ := ih txe (he.policy ▸ hp) h
      refine ⟨_, he.trans hcap, fun id' hid hnot dao hdao => ?_, fun dao hdao => ?_⟩
      · rcases eq_or_ne id' id with rfl | heq
        · exact mem_append_left _ hdao
        · have hid' : some id' ∈ es := by simpa [heq] using hid
          exact mem_append_right _ (hall id' hid' (by simp [heq, hnot]) hdao)
      rcases mem_append.mp hdao with hown | hlater
      · exact ⟨id, by simp, hown⟩
      · obtain ⟨id', hid, hmem⟩ := hfrom dao hlater
        exact ⟨id', by simp [hid], hmem⟩

end Capture

section FieldLog

abbrev Fields (V : Type) := Nat → Nat → Content V

def fieldsOf (store : Store V) : Fields V := fun dao => (store dao).fields

structure FieldUndo (V : Type) where
  dao : Nat
  field : Nat
  inverse : FieldWrite V

namespace FieldUndo

variable (u : FieldUndo V)

def key : UndoKey := ⟨u.dao, u.field, u.inverse.token⟩

def rollback : Rollback V := .undo u.dao u.field u.inverse

def restore (f : Fields V) : Fields V :=
  Function.update f u.dao (setField (f u.dao) u.field u.inverse)

def undo : Undo UndoKey (Fields V) := ⟨u.key, u.restore⟩

end FieldUndo

/-- The place an undo key stands for: a whole field or one key of it. -/
def At (k : UndoKey) (dao field key : Nat) : Prop :=
  dao = k.owner ∧ field = k.field ∧ (k.token = none ∨ k.token = some key)

def SameOutside (k : UndoKey) (f f' : Fields V) : Prop :=
  ∀ dao field key, ¬ At k dao field key → f dao field key = f' dao field key

/-- What a write puts at a key. -/
def written : FieldWrite V → Nat → Option V
  | .whole content, key => some (content key)
  | .entry key value, key' => if key' = key then some value else none

theorem apply_eq_written (w : FieldWrite V) (old : Content V) (key : Nat) :
    w.apply old key = (written w key).getD (old key) := by
  cases w with
  | whole => rfl
  | entry k =>
    by_cases h : key = k <;> simp [FieldWrite.apply, written, h]

theorem written_eq_none (h : written w key = none) :
    ¬ (w.token = none ∨ w.token = some key) := by
  cases w with
  | whole => cases h
  | entry =>
    intro htoken
    simp only [FieldWrite.token, reduceCtorEq, Option.some.injEq, false_or] at htoken
    simp [written, htoken] at h

theorem restore_apply (u : FieldUndo V) (f : Fields V) (dao field key : Nat) :
    u.restore f dao field key =
      if dao = u.dao ∧ field = u.field then (written u.inverse key).getD (f dao field key)
      else f dao field key := by
  unfold FieldUndo.restore setField
  rcases eq_or_ne dao u.dao with rfl | hdao
  · rcases eq_or_ne field u.field with rfl | hfield
    · simp [apply_eq_written]
    · simp [hfield]
  · simp [hdao]

theorem overwrites_undo (u : FieldUndo V) : Overwrites SameOutside u.undo := by
  constructor
  · intro f f' h
    funext dao field key
    simp only [FieldUndo.undo, restore_apply]
    split_ifs with hat
    · cases hw : written u.inverse key with
      | some => rfl
      | none => exact h dao field key fun hk => written_eq_none hw hk.2.2
    · exact h dao field key fun hk => hat ⟨hk.1, hk.2.1⟩
  · intro k f f' h dao field key hnot
    simp only [FieldUndo.undo, restore_apply]
    rw [h dao field key hnot]

theorem token_inverse (w : FieldWrite V) (old : Content V) : (w.inverse old).token = w.token := by
  cases w <;> rfl

theorem setField_inverse (fields : Nat → Content V) (field : Nat) (w : FieldWrite V) :
    setField (setField fields field w) field (w.inverse (fields field)) = fields := by
  funext field'
  rcases eq_or_ne field' field with rfl | h
  · cases w with
    | whole | entry => simp [setField, FieldWrite.inverse, FieldWrite.apply]
  · simp [setField, h]

theorem sameOutside_write (f : Fields V) (dao field : Nat) (w : FieldWrite V) :
    SameOutside ⟨dao, field, w.token⟩ (update f dao (setField (f dao) field w)) f := by
  intro dao' field' key hnot
  have h := restore_apply ⟨dao, field, w⟩ f dao' field' key
  simp only [FieldUndo.restore] at h
  rw [h]
  split_ifs with hat
  · have hnone : written w key = none := by
      cases w with
      | whole => exact absurd ⟨hat.1, hat.2, .inl rfl⟩ hnot
      | entry =>
        refine if_neg fun hkey => hnot ⟨hat.1, hat.2, .inr ?_⟩
        rw [hkey]
        rfl
    rw [hnone]
    rfl
  · rfl

theorem fieldsOf_update (store : Store V) (dao : Nat) (d : DaoState V) :
    fieldsOf (update store dao d) = update (fieldsOf store) dao d.fields := by
  funext dao'
  rcases eq_or_ne dao' dao with rfl | h
  · simp [fieldsOf]
  · simp [fieldsOf, h]

theorem undo_rollbacks (undos : List (FieldUndo V)) (store : Store V) :
    fieldsOf ((undos.map FieldUndo.rollback).foldr apply store) =
        unwind (undos.map FieldUndo.undo) (fieldsOf store) ∧
      ∀ dao, ((undos.map FieldUndo.rollback).foldr apply store dao).dirty = (store dao).dirty := by
  induction undos with
  | nil => exact ⟨rfl, fun _ => rfl⟩
  | cons u undos ih =>
    simp only [map_cons, foldr_cons, unwind, FieldUndo.rollback, apply]
    constructor
    · rw [fieldsOf_update]
      have hf := ih.1
      simp only [unwind] at hf
      rw [← hf]
      rfl
    intro dao
    rw [← ih.2 dao]
    rcases eq_or_ne dao u.dao with rfl | h
    · simp
    · simp [h]

end FieldLog

section Restore

theorem apply_of_owner_ne (h : owner rb ≠ dao) (store : Store V) :
    rb.apply store dao = store dao := by
  cases rb <;> exact update_of_ne h.symm _ _

def NoNewTracker (before store : Store V) : Prop :=
  ∀ dao, (before dao).dirty = none → (store dao).dirty = none

variable {before store : Store V} {rb : Rollback V} {rollbacks : List (Rollback V)} {dao : Nat}

theorem dirty_apply (hf : Faithful before rb) (hn : NoNewTracker before store)
    (h : owner rb = dao ∨ (store dao).dirty = (before dao).dirty) :
    (rb.apply store dao).dirty = (before dao).dirty := by
  by_cases howner : owner rb = dao
  · subst howner
    cases rb with
    | dirty =>
      simp only [apply, owner, update_self]
      exact hf.symm
    | state d =>
      simp only [apply, owner, update_self, hf.2]
      cases htracked : (before d).dirty with
      | none => simpa using hn d htracked
      | some => rfl
    | undo => exact hf.elim
  · rw [apply_of_owner_ne howner]
    exact h.resolve_left howner

theorem fields_apply (hf : Faithful before rb)
    (h : (∃ fields tracked, rb = .state dao fields tracked) ∨
      (store dao).fields = (before dao).fields) :
    (rb.apply store dao).fields = (before dao).fields := by
  by_cases howner : owner rb = dao
  · subst howner
    cases rb with
    | dirty =>
      simp only [apply, owner, update_self] at h ⊢
      simpa using h
    | state =>
      simp only [apply, owner, update_self]
      exact hf.1
    | undo => exact hf.elim
  · rw [apply_of_owner_ne howner]
    rcases h with ⟨fields, tracked, rfl⟩ | h
    · exact absurd rfl howner
    · exact h

variable (hf : ∀ rb ∈ rollbacks, Faithful before rb)
include hf

theorem noNewTracker_foldr (hn : NoNewTracker before store) :
    NoNewTracker before (rollbacks.foldr apply store) := by
  induction rollbacks with
  | nil => exact hn
  | cons rb rollbacks ih =>
    have hrest := ih fun rb' hrb' => hf rb' (by simp [hrb'])
    intro dao hnone
    rw [foldr_cons, dirty_apply (hf rb (by simp)) hrest
      (.inr ((hrest dao hnone).trans hnone.symm)), hnone]

theorem dirty_foldr (hn : NoNewTracker before store)
    (h : (∃ rb ∈ rollbacks, owner rb = dao) ∨ (store dao).dirty = (before dao).dirty) :
    (rollbacks.foldr apply store dao).dirty = (before dao).dirty := by
  induction rollbacks with
  | nil => exact h.resolve_left (by simp)
  | cons rb rollbacks ih =>
    have hf' : ∀ rb' ∈ rollbacks, Faithful before rb' := fun rb' hrb' => hf rb' (by simp [hrb'])
    refine dirty_apply (hf rb (by simp)) (noNewTracker_foldr hf' hn) ?_
    by_cases howner : owner rb = dao
    · exact .inl howner
    · exact .inr (ih hf' (by simpa [howner] using h))

theorem fields_foldr
    (h : (∃ fields tracked, .state dao fields tracked ∈ rollbacks) ∨
      (store dao).fields = (before dao).fields) :
    (rollbacks.foldr apply store dao).fields = (before dao).fields := by
  induction rollbacks with
  | nil => exact h.resolve_left (by simp)
  | cons rb rollbacks ih =>
    have hf' : ∀ rb' ∈ rollbacks, Faithful before rb' := fun rb' hrb' => hf rb' (by simp [hrb'])
    apply fields_apply (hf rb (by simp))
    rcases h with ⟨fields, tracked, hmem⟩ | h
    · rcases mem_cons.mp hmem with heq | hmem
      · exact .inl ⟨fields, tracked, heq.symm⟩
      · exact .inr (ih hf' (.inl ⟨fields, tracked, hmem⟩))
    · exact .inr (ih hf' (.inr h))

theorem restore_captured (hn : NoNewTracker before store) (hp : policy ≠ .none)
    (hdao : Covered before rollbacks dao policy ∨ store dao = before dao)
    (hundo : policy = .undo → (store dao).fields = (before dao).fields) :
    rollbacks.foldr apply store dao = before dao := by
  rcases hdao with hcov | hsame
  · cases policy with
    | none => exact absurd rfl hp
    | state =>
      apply DaoState.ext
      · exact fields_foldr hf (.inl ⟨_, _, hcov⟩)
      · exact dirty_foldr hf hn (.inl ⟨_, hcov, rfl⟩)
    | undo =>
      apply DaoState.ext
      · exact fields_foldr hf (.inr (hundo rfl))
      apply dirty_foldr hf hn
      cases htracked : (before dao).dirty with
      | none => exact .inr (hn dao htracked)
      | some snapshot => exact .inl ⟨_, hcov snapshot htracked, rfl⟩
  · apply DaoState.ext
    · exact fields_foldr hf (.inr (by rw [hsame]))
    · exact dirty_foldr hf hn (.inr (by rw [hsame]))

end Restore

section Handler

/-- What holds of a transaction and the store during the handler. -/
structure Tracked (before : Store V) (captured : List (Rollback V)) (policy : RollbackPolicy)
    (tx : Tx V) (store : Store V) : Prop where
  logged : Logged tx
  samePolicy : tx.policy = policy
  trackers : NoNewTracker before store
  undos : ∃ undos : List (FieldUndo V),
    tx.rollbacks = captured ++ undos.map FieldUndo.rollback ∧
    tx.undoKeys = undos.map FieldUndo.key ∧
    (policy ≠ .undo → undos = []) ∧
    (policy = .undo → unwind (undos.map FieldUndo.undo) (fieldsOf store) = fieldsOf before)

variable {env : Env V} {before : Store V} {captured : List (Rollback V)}
  {policy : RollbackPolicy} {tx tx' : Tx V} {store : Store V}

theorem tracked_calls (h : Tracked before captured policy tx store) (hc : Calls tx tx') :
    Tracked before captured policy tx' store := by
  have hs := sameRollbacks_calls hc
  refine ⟨logged_calls h.logged hc, hs.policy.trans h.samePolicy, h.trackers, ?_⟩
  rw [hs.rollbacks, hs.undoKeys]
  exact h.undos

theorem logged_recordUndo (h : Logged tx) (key : UndoKey) (rb : Rollback V) :
    Logged (tx.recordUndo key rb) := by
  unfold Tx.recordUndo
  split
  · exact h
  · exact { h with }

theorem policy_recordUndo (key : UndoKey) (rb : Rollback V) :
    (tx.recordUndo key rb).policy = tx.policy := by
  unfold Tx.recordUndo
  split <;> rfl

theorem tracked_write (h : Tracked before captured policy s.tx s.store) (dao field : Nat)
    (w : FieldWrite V) (persist sync : UInt64) :
    Tracked before captured policy (write s dao field w persist sync).tx
      (write s dao field w persist sync).store := by
  obtain ⟨undos, hrollbacks, hkeys, hnone, hunwind⟩ := h.undos
  refine ⟨logged_recordUndo h.logged _ _, (policy_recordUndo _ _).trans h.samePolicy,
    fun dao' hnew => ?_, ?_⟩
  · rcases eq_or_ne dao' dao with rfl | heq
    · simp [write, markDirty, h.trackers dao' hnew]
    · simpa [write, heq] using h.trackers dao' hnew
  simp only [write, fieldsOf_update]
  by_cases hundo : policy = .undo
  · have hsame := sameOutside_write (fieldsOf s.store) dao field w
    by_cases hkey : (⟨dao, field, w.token⟩ : UndoKey) ∈ s.tx.undoKeys
    · -- The log has an older inverse of this place already.
      rw [Tx.recordUndo, if_pos (.inr (.inr hkey))]
      refine ⟨undos, hrollbacks, hkeys, hnone, fun _ => ?_⟩
      rw [← hunwind hundo]
      refine unwind_eq_of_same ?_ ?_ hsame
      · intro u hu
        obtain ⟨v, _, rfl⟩ := mem_map.mp hu
        exact overwrites_undo v
      · rw [hkeys] at hkey
        obtain ⟨v, hv, hvk⟩ := mem_map.mp hkey
        exact ⟨v.undo, mem_map_of_mem hv, hvk⟩
    · rw [Tx.recordUndo, if_neg (by simp [h.samePolicy, hundo, h.logged.isOpen, hkey])]
      refine ⟨undos ++ [⟨dao, field, w.inverse ((s.store dao).fields field)⟩], ?_, ?_, ?_, ?_⟩
      · simp [hrollbacks, FieldUndo.rollback]
      · simp [hkeys, FieldUndo.key, token_inverse]
      · exact fun hp => absurd hundo hp
      · intro _
        rw [← hunwind hundo, map_append]
        refine unwind_record ?_
        simp only [FieldUndo.undo, FieldUndo.restore, update_self, update_idem]
        rw [setField_inverse]
        exact update_eq_self dao (fieldsOf s.store)
  · rw [Tx.recordUndo, if_pos (.inl (h.samePolicy ▸ hundo))]
    exact ⟨undos, hrollbacks, hkeys, hnone, fun hp => absurd hp hundo⟩

theorem tracked_runCall (h : Tracked before captured policy s.tx s.store) (c : HandlerCall V) :
    Tracked before captured policy (runCall env s c).1.tx (runCall env s c).1.store := by
  cases c with
  | tx c => exact tracked_calls h (.single (called_call env s.tx c))
  | write dao field w persist sync => exact tracked_write h dao field w persist sync
  | castMulti =>
    simp only [runCall]
    split <;> exact h
  | releaseCast => exact h

theorem tracked_runHandler (handler : Handler V) (h : Tracked before captured policy s.tx s.store) :
    Tracked before captured policy (runHandler env handler s).2.tx
      (runHandler env handler s).2.store := by
  induction handler generalizing s with
  | done => exact h
  | call c next ih => exact ih _ _ (tracked_runCall h c)

theorem tracked_rollback (h : Tracked before captured policy tx store) (hp : policy ≠ .none)
    (hf : ∀ rb ∈ captured, Faithful before rb)
    (hdao : Covered before captured dao policy ∨ store dao = before dao) :
    (tx.rollback store).2 dao = before dao := by
  obtain ⟨undos, hrollbacks, _, hnone, hunwind⟩ := h.undos
  obtain ⟨hfields, hdirty⟩ := undo_rollbacks undos store
  have hundo : policy = .undo →
      ((undos.map FieldUndo.rollback).foldr apply store dao).fields = (before dao).fields :=
    fun hundo => congrFun (hfields.trans (hunwind hundo)) dao
  rw [Tx.rollback, if_pos h.logged.isOpen, hrollbacks, foldr_append]
  refine restore_captured hf ?_ hp (hdao.imp id fun hsame => ?_) hundo
  · intro dao' hnone
    rw [hdirty]
    exact h.trackers dao' hnone
  by_cases hpolicy : policy = .undo
  · exact DaoState.ext (hundo hpolicy) ((hdirty dao).trans (by rw [hsame]))
  · rw [hnone hpolicy]
    exact hsame

theorem tracked_captureEntities (hm : m.rollback ≠ .none) {remoteBatch : Bool} {es} {id : Nat}
    (h : captureEntities env store remoteBatch es [] (Tx.new id m name) = .ok tx) :
    Tracked store tx.rollbacks m.rollback tx store ∧ (∀ rb ∈ tx.rollbacks, Faithful store rb) ∧
      (∀ rb ∈ tx.rollbacks, ∃ entity, some entity ∈ es ∧ owner rb ∈ (env.entity entity).daos) ∧
      ∀ entity, some entity ∈ es → ∀ dao ∈ (env.entity entity).daos,
        Covered store tx.rollbacks dao m.rollback := by
  obtain ⟨daos, hcap, hall, hfrom⟩ := captures_captureEntities
    (show (Tx.new id m name : Tx V).policy ≠ .none from hm) h
  have hlog := logged_new (V := V) id m name
  refine ⟨⟨hcap.logged hlog, hcap.policy, fun _ hnone => hnone, [], by simp, hcap.undoKeys,
    fun _ => rfl, fun _ => rfl⟩, hcap.faithful (by simp [Tx.new]), ?_, ?_⟩
  · intro rb hrb
    exact hfrom _ ((hcap.owners rb hrb).resolve_left (by simp [Tx.new]))
  · intro entity hentity dao hdao
    exact hcap.covers hlog dao (hall entity hentity (by simp) hdao)

end Handler

end CubeCore.RollbackCapture
