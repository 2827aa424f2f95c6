import CubeCore.ReplyTokens
import Mathlib.Data.List.Count

namespace CubeCore.PendingTransitions

open EntityGroup NestMessages TransitionSystem Function List Option GroupBase

def transition : Item → Option Transition
  | .sending (.transition t) _ _ | .queued _ (.transition t) | .delayed (.transition t) => some t
  | .transiting _ t _ | .requesting _ t _ _ => some t
  | _ => none

/-- The transition, once the request has set the state of the entity. -/
def begun : Item → Option Transition
  | .requesting _ _ _ .looked => none
  | it => transition it

def carries (id : Int) (it : Item) : Bool := (begun it).any (·.req.entityID = id)

def dispatched : DispatchStage → Option Nat
  | .locking obj | .comparing obj _ | .comparingTarget obj _ | .updating obj | .clearing obj _
  | .clearingState obj _ => some obj
  | .start | .retrying | .aborting => none

/-- The object that the goroutine of an item has looked up. -/
def inHand : Item → Option Nat
  | .transiting _ _ stage => dispatched stage
  | .requesting _ _ obj _ => some obj
  | _ => none

/-- The target of the transition is set, and not cleared. -/
def targeted : Item → Bool
  | .requesting _ _ _ .stored => true
  | .requesting _ _ _ _ => false
  | .transiting _ _ (.clearing _ _) | .transiting _ _ (.clearingState _ _) => false
  | _ => true

/-- The message is turned away, its dispatch ends before the lookup, the lookup fails, or the retry
is not taken. -/
def loses (cfg : Config) (s : Nest) : Item → Choice → Bool
  | .sending (.transition t) stage _, _ =>
    (s.managed t.req.entityID).isSome && !sendable cfg s (.transition t) stage
  | .transiting _ t .start, .failed | .transiting _ t .start, .missing
  | .transiting _ t .aborting, .missing => (s.managed t.req.entityID).isSome
  | .transiting _ t .retrying, .ok =>
    (s.managed t.req.entityID).isSome && (t.attempts + 1 < entityGroupTransitionRetryMax &&
      !admitsDelay cfg s entityGroupTransitionRetryDelay)
  | _, _ => false

def keepsTransitions (cfg : Config) (s : Nest) : Label → Prop
  | .step i choice => ∀ it, s.items[i]? = some it → loses cfg s it choice = false
  | .load id => ∀ it ∈ s.items, ∀ t, transition it = some t → t.req.entityID ≠ id
  | .stop => False
  | _ => True

structure Agrees (it : Item) (t : Transition) (b : GroupBase) : Prop where
  state : b.groupState = t.req.state
  target : targeted it = true → b.groupTargetID = t.req.targetGroupID

structure Carried (s : Nest) : Prop where
  managed_inj : ∀ id id' obj, s.managed id = some obj → s.managed id' = some obj → id = id'
  managed_lt : ∀ id obj, s.managed id = some obj → obj < s.objects
  valid : ∀ it ∈ s.items, ∀ t, transition it = some t → t.req.state ≠ .none
  hand : ∀ it ∈ s.items, ∀ t obj, transition it = some t → inHand it = some obj →
    obj < s.objects ∧ ∀ id obj', s.managed id = some obj' → (id = t.req.entityID ↔ obj' = obj)
  agrees : ∀ it ∈ s.items, ∀ t, begun it = some t → ∀ obj, s.managed t.req.entityID = some obj →
    Agrees it t (s.base obj)
  count : ∀ id obj, s.managed id = some obj →
    s.items.countP (carries id) = (s.base obj).groupTransitionPending.toNat

/-- A step writes to the object in hand only, and what comes of the item carries what it carried. -/
structure Moves (s : Nest) (it : Item) (e : Effect) : Prop where
  base : ∀ obj, e.base obj = s.base obj ∨ inHand it = some obj ∧
    ((begun it).isSome = true ∨ (s.base obj).groupTransitionPending = false)
  request : ∀ it' ∈ e.items, ∀ t', transition it' = some t' →
    ∃ t, transition it = some t ∧ t'.req = t.req
  hand : ∀ it' ∈ e.items, ∀ t' obj, transition it' = some t' → inHand it' = some obj →
    inHand it = some obj ∨ s.managed t'.req.entityID = some obj
  agrees : ∀ it' ∈ e.items, ∀ t', begun it' = some t' →
    ∀ obj, s.managed t'.req.entityID = some obj → Agrees it' t' (e.base obj)
  count : ∀ id obj, s.managed id = some obj →
    e.items.countP (carries id) + (s.base obj).groupTransitionPending.toNat =
      (carries id it).toNat + (e.base obj).groupTransitionPending.toNat

section Items

variable {it it' : Item} {t t' : Transition}

theorem transition_of_begun (h : begun it = some t) : transition it = some t := by
  cases it with
  | requesting _ _ _ stage =>
    cases stage with
    | looked => cases h
    | _ => exact h
  | _ => exact h

theorem begun_of_transition_none (h : transition it = none) : begun it = none := by
  rw [eq_none_iff_forall_ne_some] at h ⊢
  exact fun t ht => h t (transition_of_begun ht)

theorem carries_of_begun (h : begun it = some t) (id : Int) :
    carries id it = decide (t.req.entityID = id) := by
  rw [carries, h]
  rfl

theorem carries_of_none (h : begun it = none) (id : Int) : carries id it = false := by
  rw [carries, h]
  rfl

theorem countP_of_none {items : List Item} (h : ∀ it ∈ items, transition it = none) (id : Int) :
    items.countP (carries id) = 0 := by
  rw [countP_eq_zero]
  intro it hit
  simp [carries_of_none (begun_of_transition_none (h it hit))]

end Items

variable {obj : Nat} {caller : Option Worker} {l : Label}

section Replace

variable {s s' : Nest} {it : Item} {e : Effect} {rest : List Item}

theorem Carried.hand_of_managed (h : Carried s) {id : Int} (hfound : s.managed id = some obj) :
    obj < s.objects ∧ ∀ id' obj', s.managed id' = some obj' → (id' = id ↔ obj' = obj) := by
  refine ⟨h.managed_lt _ _ hfound, fun id' obj' hid => ⟨?_, ?_⟩⟩
  · rintro rfl
    exact some.inj (hid.symm.trans hfound)
  · rintro rfl
    exact h.managed_inj _ _ _ hid hfound

variable {t : Transition}

theorem Carried.pending_of_mem (h : Carried s) (hit : it ∈ s.items) (hbegun : begun it = some t)
    (hmanaged : s.managed t.req.entityID = some obj) :
    (s.base obj).groupTransitionPending = true := by
  have hstate := (h.agrees it hit t hbegun obj hmanaged).state
  have hvalid := h.valid it hit t (transition_of_begun hbegun)
  simpa [groupTransitionPending, hstate] using hvalid

theorem Carried.frame {other : Item} (h : Carried s) (hperm : s.items.Perm (it :: rest))
    (hmoves : Moves s it e) (hother : other ∈ rest) (hbegun : begun other = some t)
    (hmanaged : s.managed t.req.entityID = some obj) : e.base obj = s.base obj := by
  have hmem : other ∈ s.items := hperm.symm.subset (.tail _ hother)
  have hpending := h.pending_of_mem hmem hbegun hmanaged
  rcases hmoves.base obj with hsame | ⟨hhand, hbegun' | hidle⟩
  · exact hsame
  · -- two items would carry it
    obtain ⟨t', ht'⟩ := isSome_iff_exists.mp hbegun'
    have hid := ((h.hand it (hperm.symm.subset (.head _)) t' obj (transition_of_begun ht')
      hhand).2 _ _ hmanaged).mpr rfl
    have hcount := h.count _ _ hmanaged
    rw [hperm.countP_eq, countP_cons, carries_of_begun ht', hpending] at hcount
    have hpos : 0 < rest.countP (carries t.req.entityID) :=
      countP_pos_iff.mpr ⟨other, hother, by simp [carries_of_begun hbegun]⟩
    simp only [← hid, decide_true, if_true, Bool.toNat_true] at hcount
    omega
  · rw [hpending] at hidle
    cases hidle

theorem Carried.replace (h : Carried s) (hperm : s.items.Perm (it :: rest))
    (hmoves : Moves s it e) (hitems : s'.items.Perm (e.items ++ rest)) (hbase : s'.base = e.base)
    (hmanaged : s'.managed = s.managed) (hobjects : s'.objects = s.objects) : Carried s' := by
  have hit : it ∈ s.items := hperm.symm.subset (.head _)
  have hrest : ∀ {other}, other ∈ rest → other ∈ s.items := fun hmem =>
    hperm.symm.subset (.tail _ hmem)
  have hcases : ∀ {it'}, it' ∈ s'.items → it' ∈ e.items ∨ it' ∈ rest := fun hmem =>
    mem_append.mp (hitems.subset hmem)
  refine ⟨?_, ?_, ?_, ?_, ?_, ?_⟩
  · rw [hmanaged]
    exact h.managed_inj
  · rw [hmanaged, hobjects]
    exact h.managed_lt
  · intro it' hit' t' ht'
    rcases hcases hit' with hnew | hold
    · obtain ⟨t, ht, hreq⟩ := hmoves.request it' hnew t' ht'
      rw [hreq]
      exact h.valid it hit t ht
    · exact h.valid it' (hrest hold) t' ht'
  · intro it' hit' t' obj ht' hobj
    rw [hobjects, hmanaged]
    rcases hcases hit' with hnew | hold
    · rcases hmoves.hand it' hnew t' obj ht' hobj with hhand | hfound
      · obtain ⟨t, ht, hreq⟩ := hmoves.request it' hnew t' ht'
        rw [hreq]
        exact h.hand it hit t obj ht hhand
      · exact h.hand_of_managed hfound
    · exact h.hand it' (hrest hold) t' obj ht' hobj
  · intro it' hit' t' ht' obj hobj
    rw [hmanaged] at hobj
    rw [hbase]
    rcases hcases hit' with hnew | hold
    · exact hmoves.agrees it' hnew t' ht' obj hobj
    · rw [h.frame hperm hmoves hold ht' hobj]
      exact h.agrees it' (hrest hold) t' ht' obj hobj
  · intro id obj hobj
    rw [hmanaged] at hobj
    have hcount := h.count id obj hobj
    have hmoved := hmoves.count id obj hobj
    rw [hperm.countP_eq] at hcount
    rw [hitems.countP_eq, countP_append, hbase]
    cases hcarries : carries id it <;> simp [hcarries] at hcount hmoved <;> omega

end Replace

section Kinds

variable {s : Nest} {it it' : Item} {t t' : Transition} {e : Effect} {obj : Nat}

theorem Moves.of_none (hitems : ∀ it' ∈ e.items, transition it' = none)
    (hbase : ∀ obj, e.base obj = s.base obj ∨ inHand it = some obj ∧
      ((begun it).isSome = true ∨ (s.base obj).groupTransitionPending = false))
    (hcount : ∀ id obj, s.managed id = some obj → (s.base obj).groupTransitionPending.toNat =
      (carries id it).toNat + (e.base obj).groupTransitionPending.toNat) : Moves s it e := by
  have habsurd : ∀ {it' t'}, it' ∈ e.items → transition it' ≠ some t' := by
    intro it' t' hit' ht'
    rw [hitems it' hit'] at ht'
    cases ht'
  refine ⟨hbase, fun _ hit' _ ht' => absurd ht' (habsurd hit'),
    fun _ hit' _ _ ht' _ => absurd ht' (habsurd hit'),
    fun _ hit' _ ht' _ _ => absurd (transition_of_begun ht') (habsurd hit'), fun id obj hobj => ?_⟩
  rw [countP_of_none hitems, Nat.zero_add]
  exact hcount id obj hobj

theorem Moves.of_one (hitems : e.items = [it']) (ht : transition it = some t)
    (ht' : begun it' = some t') (hreq : t'.req = t.req)
    (hbase : ∀ obj, e.base obj = s.base obj ∨ inHand it = some obj ∧
      ((begun it).isSome = true ∨ (s.base obj).groupTransitionPending = false))
    (hhand : ∀ obj, inHand it' = some obj →
      inHand it = some obj ∨ s.managed t.req.entityID = some obj)
    (hagrees : ∀ obj, s.managed t.req.entityID = some obj → Agrees it' t' (e.base obj))
    (hcount : ∀ id obj, s.managed id = some obj →
      (decide (t.req.entityID = id)).toNat + (s.base obj).groupTransitionPending.toNat =
        (carries id it).toNat + (e.base obj).groupTransitionPending.toNat) : Moves s it e := by
  have honly : ∀ {it''}, it'' ∈ e.items → it'' = it' := by
    intro it'' hit''
    rw [hitems] at hit''
    exact mem_singleton.mp hit''
  refine ⟨hbase, ?_, ?_, ?_, ?_⟩
  · intro it'' hit'' t'' ht''
    rw [honly hit'', transition_of_begun ht'] at ht''
    cases ht''
    exact ⟨t, ht, hreq⟩
  · intro it'' hit'' t'' obj ht'' hobj
    rw [honly hit''] at ht'' hobj
    rw [transition_of_begun ht'] at ht''
    cases ht''
    rw [hreq]
    exact hhand obj hobj
  · intro it'' hit'' t'' ht'' obj hobj
    rw [honly hit''] at ht'' ⊢
    rw [ht'] at ht''
    cases ht''
    rw [hreq] at hobj
    exact hagrees obj hobj
  · intro id obj hobj
    have hone : e.items.countP (carries id) = (decide (t.req.entityID = id)).toNat := by
      rw [hitems, countP_singleton, carries_of_begun ht', hreq]
      cases decide (t.req.entityID = id) <;> rfl
    rw [hone]
    exact hcount id obj hobj

theorem moves_away (hnone : ∀ t, begun it = some t → s.managed t.req.entityID = none)
    (hitems : ∀ it' ∈ e.items, transition it' = none) (hbase : e.base = s.base) : Moves s it e := by
  refine .of_none hitems (fun _ => .inl (by rw [hbase])) fun id obj hobj => ?_
  have hcarries : carries id it = false := by
    cases hbegun : begun it with
    | none => exact carries_of_none hbegun id
    | some t =>
      rw [carries_of_begun hbegun]
      apply decide_eq_false
      rintro rfl
      rw [hnone t hbegun] at hobj
      cases hobj
  rw [hcarries, hbase, Bool.toNat_false, Nat.zero_add]

theorem Carried.moves_on (h : Carried s) (hit : it ∈ s.items) (ht : begun it = some t)
    (ht' : begun it' = some t') (hreq : t'.req = t.req)
    (hhand : ∀ obj, inHand it' = some obj →
      inHand it = some obj ∨ s.managed t.req.entityID = some obj)
    (htarget : targeted it' = true → targeted it = true) : Moves s it (become s [it']) := by
  refine .of_one rfl (transition_of_begun ht) ht' hreq (fun _ => .inl rfl) hhand ?_ ?_
  · intro obj hobj
    have hagrees := h.agrees it hit t ht obj hobj
    refine ⟨hreq ▸ hagrees.state, fun htargeted => ?_⟩
    rw [hreq]
    exact hagrees.target (htarget htargeted)
  · intro id obj _
    rw [carries_of_begun ht]
    rfl

theorem write_base (e : Effect) (obj obj' : Nat) (f : GroupBase → GroupBase) :
    (e.write obj f).base obj' = if obj' = obj then f (e.base obj) else e.base obj' := by
  simp [Effect.write, update_apply]

theorem base_write (hbase : e.base = s.base) (hhand : inHand it = some obj)
    (hbegun : (begun it).isSome = true ∨ (s.base obj).groupTransitionPending = false)
    (f : GroupBase → GroupBase) (obj' : Nat) :
    (e.write obj f).base obj' = s.base obj' ∨ inHand it = some obj' ∧
      ((begun it).isSome = true ∨ (s.base obj').groupTransitionPending = false) := by
  rw [write_base]
  split_ifs with heq
  · exact .inr (heq ▸ ⟨hhand, hbegun⟩)
  · exact .inl (by rw [hbase])

theorem Carried.moves_write {f : GroupBase → GroupBase} (h : Carried s) (hit : it ∈ s.items)
    (ht : begun it = some t) (ht' : begun it' = some t') (hreq : t'.req = t.req)
    (hhand : inHand it = some obj) (hhand' : inHand it' = some obj)
    (hstate : ∀ b, (f b).groupState = b.groupState)
    (htarget : targeted it' = true → (f (s.base obj)).groupTargetID = t.req.targetGroupID) :
    Moves s it ((become s [it']).write obj f) := by
  refine .of_one rfl (transition_of_begun ht) ht' hreq
    (base_write rfl hhand (.inl (by rw [ht]; rfl)) f) ?_ ?_ ?_
  · intro obj' hobj'
    rw [hhand'] at hobj'
    exact .inl (hhand.trans hobj')
  · intro obj' hobj'
    obtain rfl := ((h.hand it hit t obj (transition_of_begun ht) hhand).2 _ _ hobj').mp rfl
    rw [write_base, if_pos rfl]
    refine ⟨?_, fun htargeted => ?_⟩
    · rw [hstate, hreq]
      exact (h.agrees it hit t ht obj' hobj').state
    · rw [hreq]
      exact htarget htargeted
  · intro id obj' _
    rw [carries_of_begun ht, write_base]
    split_ifs with heq
    · simp only [heq, groupTransitionPending, hstate]
      rfl
    · rfl

theorem Carried.moves_clear (h : Carried s) (hit : it ∈ s.items) (ht : begun it = some t)
    (hhand : inHand it = some obj) (hitems : ∀ it' ∈ e.items, transition it' = none)
    (hbase : e.base = s.base) :
    Moves s it (e.write obj fun b => { b with groupState := .none }) := by
  refine .of_none hitems (base_write hbase hhand (.inl (by rw [ht]; rfl)) _) ?_
  intro id obj' hobj'
  have hid := (h.hand it hit t obj (transition_of_begun ht) hhand).2 id obj' hobj'
  rw [carries_of_begun ht, write_base]
  split_ifs with hne
  · obtain rfl := hid.mpr hne
    rw [h.pending_of_mem hit ht hobj']
    simp [groupTransitionPending]
  · have hne' : t.req.entityID ≠ id := fun heq => hne (hid.mp heq.symm)
    simp [hne', hbase]

theorem Carried.moves_begin (h : Carried s) (hit : Item.requesting caller t obj .looked ∈ s.items)
    (hidle : (s.base obj).groupState = .none) :
    Moves s (.requesting caller t obj .looked) ((become s [.requesting caller t obj .begun]).write
      obj fun b => { b with groupState := t.req.state }) := by
  refine .of_one rfl rfl rfl rfl
    (base_write rfl rfl (.inr (by simp [groupTransitionPending, hidle])) _)
    (fun _ hobj => .inl hobj) ?_ ?_
  · intro obj' hobj'
    obtain rfl := ((h.hand _ hit t obj rfl rfl).2 _ _ hobj').mp rfl
    rw [write_base, if_pos rfl]
    exact ⟨rfl, fun htargeted => by cases htargeted⟩
  intro id obj' hobj'
  have hid := (h.hand _ hit t obj rfl rfl).2 id obj' hobj'
  have hcarries : carries id (.requesting caller t obj .looked) = false := rfl
  rw [hcarries, write_base]
  split_ifs with hne
  · obtain rfl := hid.mpr hne
    simp [groupTransitionPending, hne, hidle, h.valid _ hit t rfl]
  · have hne' : t.req.entityID ≠ id := fun heq => hne (hid.mp heq.symm)
    simp [hne', become]

end Kinds

section Steps

variable {cfg : Config} {s s' : Nest} {it : Item} {e : Effect} {choice : Choice}

theorem moves_sendCall (c : Call) (stage : SendStage) (origin : Origin) :
    Moves s (.sending (.call c) stage origin) (sendStep cfg s (.call c) stage origin) := by
  refine moves_away nofun ?_ ?_
  · simp only [sendStep]
    split
    · cases stage <;> simp [become, transition]
    · cases origin <;> simp [reject, become, reply]
  simp only [sendStep]
  split
  · cases stage <;> rfl
  · cases origin <;> rfl

variable {t : Transition}

theorem moves_sendTransition {stage : SendStage} {origin : Origin} (h : Carried s)
    (hit : Item.sending (.transition t) stage origin ∈ s.items)
    (hkept : loses cfg s (.sending (.transition t) stage origin) choice = false) :
    Moves s (.sending (.transition t) stage origin)
      (sendStep cfg s (.transition t) stage origin) := by
  by_cases hsend : sendable cfg s (.transition t) stage = true
  · simp only [sendStep, hsend, if_true]
    have hgoOn : ∀ it', begun it' = some t → inHand it' = none → targeted it' = true →
        Moves s (.sending (.transition t) stage origin) (become s [it']) := by
      intro it' ht' hnone _
      refine h.moves_on hit rfl ht' rfl (fun obj hobj => ?_) (fun _ => rfl)
      rw [hnone] at hobj
      cases hobj
    cases stage with
    | push =>
      exact { hgoOn (.queued (cfg.worker (.transition t)) (.transition t)) rfl rfl rfl with }
    | _ => exact hgoOn _ rfl rfl rfl
  · have hmanaged : s.managed t.req.entityID = none := by
      simpa [loses, hsend] using hkept
    simp only [sendStep, hsend]
    refine moves_away (fun _ ht => by cases ht; exact hmanaged) ?_ ?_
    · cases origin <;> simp [reject, become, reply]
    · cases origin <;> rfl

variable {w : Worker} {c : Call}

theorem moves_finish (he : finish cfg s c choice = some e) :
    Moves s (.handling w c) e := by
  have hreply : ∀ {channel}, Moves s (.handling w c) (reply s channel) := by
    intro channel
    exact moves_away nofun (by simp [reply]) rfl
  apply of_eq_some he
  fun_cases finish cfg s c choice with
  | case3 | case5 =>
    unfold delaySend
    split
    · exact moves_away nofun (by simp [become, transition]) rfl
    · exact hreply
  | case7 => exact moves_away nofun (by simp [become]) rfl
  | case8 => trivial
  | _ => exact hreply

theorem moves_requestStep {stage : RequestStage} (h : Carried s)
    (hit : Item.requesting caller t obj stage ∈ s.items)
    (he : requestStep s caller t obj stage = some e) :
    Moves s (.requesting caller t obj stage) e := by
  cases stage with
  | looked =>
    cases he
    split_ifs with hidle
    · exact h.moves_begin hit hidle
    · exact moves_away (fun _ ht => by cases ht) (by simp [become]) rfl
  | begun =>
    cases he
    exact h.moves_write hit rfl rfl rfl rfl rfl (fun _ => rfl) (fun _ => rfl)
  | stored =>
    simp only [requestStep] at he
    split at he
    · cases he
      exact h.moves_on hit rfl rfl rfl (fun _ hobj => by cases hobj) (fun _ => rfl)
    · split_ifs at he
      cases he
      exact h.moves_on hit rfl rfl rfl (fun _ hobj => .inl hobj) (fun _ => rfl)
  | clearing =>
    cases he
    exact h.moves_write hit rfl rfl rfl rfl rfl (fun _ => rfl) (fun ht => by cases ht)
  | clearingState =>
    cases he
    exact h.moves_clear hit rfl rfl (by simp [become]) rfl

theorem transition_continuation (t : Transition) :
    ∀ it' ∈ (dispatchGroupTransitionContinuation cfg s t).items, transition it' = none := by
  unfold dispatchGroupTransitionContinuation
  split
  · simp [become]
  · split <;> simp [become, transition]

theorem base_continuation (t : Transition) :
    (dispatchGroupTransitionContinuation cfg s t).base = s.base := by
  unfold dispatchGroupTransitionContinuation
  split
  · rfl
  · split <;> rfl

theorem setGroupLockID_state (b : GroupBase) (groupID : Int) :
    (b.setGroupLockID groupID).groupState = b.groupState := by
  unfold setGroupLockID
  split <;> rfl

section

variable (h : Carried s)
include h

theorem moves_transitStep {stage : DispatchStage} (hit : Item.transiting w t stage ∈ s.items)
    (hkept : loses cfg s (.transiting w t stage) choice = false)
    (he : transitStep cfg s w t stage choice = some e) : Moves s (.transiting w t stage) e := by
  have hgone : ∀ {channel}, s.managed t.req.entityID = none →
      Moves s (.transiting w t stage) (reply s channel) := by
    intro channel hmanaged
    refine moves_away (fun _ ht => ?_) (by simp [reply]) rfl
    cases ht
    exact hmanaged
  have hgoOn : ∀ {t' : Transition} {stage' : DispatchStage}, t'.req = t.req →
      (∀ obj, dispatched stage' = some obj → dispatched stage = some obj ∨
        s.managed t.req.entityID = some obj) →
      targeted (.transiting w t stage) = true →
      Moves s (.transiting w t stage) (become s [.transiting w t' stage']) := by
    intro t' stage' hreq hhand htarget
    exact h.moves_on hit rfl rfl hreq hhand (fun _ => htarget)
  have hmanaged : ∀ {obj}, dispatched stage = some obj → s.managed t.req.entityID = none ∨
      s.managed t.req.entityID = some obj ∧ Agrees (.transiting w t stage) t (s.base obj) := by
    intro obj hobj
    cases hfound : s.managed t.req.entityID with
    | none => exact .inl rfl
    | some =>
      obtain rfl := ((h.hand _ hit t obj rfl hobj).2 _ _ hfound).mp rfl
      exact .inr ⟨rfl, h.agrees _ hit t rfl _ hfound⟩
  apply of_eq_some he
  fun_cases transitStep cfg s w t stage choice with
  | case1 => exact @hgone none (by simpa [loses] using hkept)
  | case3 | case17 => exact hgone (by simpa [loses] using hkept)
  | case5 | case18 =>
    refine elim_of_eq_some fun _ he => ?_
    obtain ⟨obj, hobj, rfl⟩ := map_eq_some_iff.mp he
    refine hgoOn rfl (fun obj' hobj' => .inr ?_) rfl
    rw [hobj, ← hobj']
    rfl
  | case6 | case14 | case15 => exact hgoOn rfl (fun _ hobj => by cases hobj) rfl
  | case7 | case11 => exact hgoOn rfl (fun _ hobj => .inl hobj) rfl
  | case8 =>
    split
    · exact hgoOn rfl (fun _ hobj => .inl hobj) rfl
    -- the state of a managed object is that of the request
    rename_i hstate
    rcases hmanaged rfl with hnone | ⟨_, hagrees⟩
    · exact hgone hnone
    · exact absurd hagrees.state hstate
  | case9 _ abort =>
    split
    · refine hgoOn rfl (fun obj' hobj => .inl ?_) rfl
      cases abort <;> exact hobj
    rename_i htarget
    rcases hmanaged rfl with hnone | ⟨_, hagrees⟩
    · exact hgone hnone
    · exact absurd (hagrees.target rfl) htarget
  | case10 =>
    exact h.moves_write hit rfl rfl rfl rfl rfl (fun b => setGroupLockID_state b _)
      (fun ht => by cases ht)
  | case12 => exact h.moves_write hit rfl rfl rfl rfl rfl (fun _ => rfl) (fun ht => by cases ht)
  | case13 _ done =>
    cases done with
    | false => exact h.moves_clear hit rfl rfl (by simp [complete, reply]) rfl
    | true => exact h.moves_clear hit rfl rfl (transition_continuation t) (base_continuation t)
  | case16 hmax =>
    have hlt : t.attempts + 1 < entityGroupTransitionRetryMax := Nat.lt_of_not_le hmax
    unfold delaySend
    split_ifs with hfull
    · exact h.moves_on hit rfl rfl rfl (fun _ hobj => by cases hobj) (fun _ => rfl)
    · exact @hgone none (by simpa [loses, hlt, hfull] using hkept)
  | _ => trivial

theorem moves_itemStep (hit : it ∈ s.items) (hkept : loses cfg s it choice = false)
    (he : itemStep cfg s it choice = some e) : Moves s it e := by
  cases it with
  | sending m stage origin =>
    cases choice with
    | ok =>
      cases he
      cases m with
      | call c => exact moves_sendCall c stage origin
      | transition => exact moves_sendTransition h hit hkept
    | _ => cases he
  | handling =>
    simp only [itemStep] at he
    split_ifs at he
    exact moves_finish he
  | transiting => exact moves_transitStep h hit hkept he
  | requesting =>
    cases choice with
    | ok => exact moves_requestStep h hit he
    | _ => cases he
  | _ => cases he

variable {i : Nat}

theorem Carried.apply (hit : s.items[i]? = some it) (hmoves : Moves s it e) :
    Carried (s.apply i e) :=
  h.replace (items_perm hit) hmoves perm_append_comm rfl rfl rfl

theorem Carried.moves_msg {it' : Item} (hit : it ∈ s.items) (hbegun : begun it' = begun it)
    (hsame : transition it' = begun it') (hhand : inHand it' = none)
    (htarget : targeted it = true) : Moves s it (become s [it']) := by
  cases ht : begun it with
  | none =>
    refine moves_away (fun _ ht' => by rw [ht] at ht'; cases ht') ?_ rfl
    simpa [become] using hsame.trans (hbegun.trans ht)
  | some =>
    refine h.moves_on hit ht (hbegun.trans ht) rfl (fun obj hobj => ?_) (fun _ => htarget)
    rw [hhand] at hobj
    cases hobj

theorem Carried.snoc (hbegun : begun it = none)
    (hvalid : ∀ t, transition it = some t → t.req.state ≠ .none)
    (hhand : ∀ t obj, transition it = some t → inHand it = some obj →
      s.managed t.req.entityID = some obj)
    {channels : Nat} {accepted : List Nat} :
    Carried { s with
      channels := channels
      items := s.items ++ [it]
      accepted := accepted } := by
  have hcases : ∀ {it'}, it' ∈ s.items ++ [it] → it' ∈ s.items ∨ it' = it := fun hmem =>
    (mem_append.mp hmem).imp id mem_singleton.mp
  refine ⟨h.managed_inj, h.managed_lt, ?_, ?_, ?_, ?_⟩
  · intro it' hit' t ht
    rcases hcases hit' with hold | rfl
    · exact h.valid it' hold t ht
    · exact hvalid t ht
  · intro it' hit' t obj ht hobj
    rcases hcases hit' with hold | rfl
    · exact h.hand it' hold t obj ht hobj
    · exact h.hand_of_managed (hhand t obj ht hobj)
  · intro it' hit' t ht
    rcases hcases hit' with hold | rfl
    · exact h.agrees it' hold t ht
    · rw [hbegun] at ht
      cases ht
  · intro id obj hobj
    rw [countP_append, countP_singleton, carries_of_none hbegun]
    exact h.count id obj hobj

theorem carried_bind {j : Nat} {c' : Call} {t' : Transition}
    (hreq : s.items[i]? = some (.requesting (some w) t obj .stored))
    (hcall : s.items[j]? = some (.handling w c)) (ht' : t'.req = t.req) :
    Carried { s with
      items := ((s.items.set j (.handling w c')).eraseIdx i) ++
        [.sending (.transition t') .flags .dispatch] } := by
  obtain ⟨rest, hold, hnew⟩ := bind_perm hreq hcall c' (.sending (.transition t') .flags .dispatch)
  have hhandled : Carried { s with
      items := .requesting (some w) t obj .stored :: .handling w c' :: rest } := by
    refine h.replace (hold.trans (List.Perm.swap _ _ _))
      (moves_away (e := become s [.handling w c']) (fun _ ht => by cases ht) ?_ rfl)
      (List.Perm.swap _ _ _) rfl rfl rfl
    simp [become, transition]
  have hsent := @Carried.moves_on _ _ (.sending (.transition t') .flags .dispatch) _ _ hhandled
    (.head _) rfl rfl ht' (fun _ hobj => by cases hobj) (fun _ => rfl)
  exact hhandled.replace (List.Perm.refl _) hsent hnew rfl rfl rfl

theorem carried_load {id : Int} (hnone : s.managed id = none)
    (hguard : keepsTransitions cfg s (.load id)) :
    Carried { s with
      managed := update s.managed id (some s.objects)
      base := update s.base s.objects .zero
      objects := s.objects + 1 } := by
  have hcases : ∀ {id' obj}, update s.managed id (some s.objects) id' = some obj →
      id' = id ∧ obj = s.objects ∨ id' ≠ id ∧ s.managed id' = some obj ∧ obj ≠ s.objects := by
    intro id' obj hobj
    rcases eq_or_ne id' id with rfl | heq
    · exact .inl ⟨rfl, by simpa using hobj.symm⟩
    · have hobj : s.managed id' = some obj := by simpa [heq] using hobj
      exact .inr ⟨heq, hobj, (h.managed_lt _ _ hobj).ne⟩
  have hidle : s.items.countP (carries id) = 0 := by
    rw [countP_eq_zero]
    intro it hit
    cases ht : begun it with
    | none => simp [carries_of_none ht]
    | some t => simpa [carries_of_begun ht] using hguard it hit t (transition_of_begun ht)
  refine ⟨?_, ?_, h.valid, ?_, ?_, ?_⟩
  · intro id₁ id₂ obj h₁ h₂
    rcases hcases h₁ with ⟨rfl, rfl⟩ | ⟨_, h₁, hne⟩
    · rcases hcases h₂ with ⟨rfl, _⟩ | ⟨_, _, hne⟩
      · rfl
      · exact absurd rfl hne
    · rcases hcases h₂ with ⟨_, rfl⟩ | ⟨_, h₂, _⟩
      · exact absurd rfl hne
      · exact h.managed_inj _ _ _ h₁ h₂
  · intro id' obj hobj
    rcases hcases hobj with ⟨_, rfl⟩ | ⟨_, hobj, _⟩
    · exact Nat.lt_succ_self _
    · exact Nat.lt_succ_of_lt (h.managed_lt _ _ hobj)
  · intro it hit t obj ht hobj
    obtain ⟨hlt, hiff⟩ := h.hand it hit t obj ht hobj
    refine ⟨Nat.lt_succ_of_lt hlt, fun id' obj' hobj' => ?_⟩
    rcases hcases hobj' with ⟨rfl, rfl⟩ | ⟨_, hobj', _⟩
    · exact iff_of_false (hguard it hit t ht).symm hlt.ne'
    · exact hiff id' obj' hobj'
  · intro it hit t ht obj hobj
    rcases hcases hobj with ⟨heq, _⟩ | ⟨_, hobj, hne⟩
    · exact absurd heq (hguard it hit t (transition_of_begun ht))
    · simpa [hne] using h.agrees it hit t ht obj hobj
  · intro id' obj hobj
    rcases hcases hobj with ⟨rfl, rfl⟩ | ⟨_, hobj, hne⟩
    · simpa [zero, groupTransitionPending] using hidle
    · simpa [hne] using h.count id' obj hobj

theorem carried_remove (id : Int) : Carried { s with managed := update s.managed id none } := by
  have hcases : ∀ {id' obj}, update s.managed id none id' = some obj →
      s.managed id' = some obj := by
    intro id' obj hobj
    by_cases heq : id' = id
    · simp [heq] at hobj
    · simpa [heq] using hobj
  refine ⟨fun id₁ id₂ obj h₁ h₂ => h.managed_inj _ _ _ (hcases h₁) (hcases h₂),
    fun id' obj hobj => h.managed_lt _ _ (hcases hobj), h.valid, ?_, ?_, ?_⟩
  · intro it hit t obj ht hobj
    obtain ⟨hlt, hiff⟩ := h.hand it hit t obj ht hobj
    exact ⟨hlt, fun id' obj' hobj' => hiff id' obj' (hcases hobj')⟩
  · intro it hit t ht obj hobj
    exact h.agrees it hit t ht obj (hcases hobj)
  · intro id' obj hobj
    exact h.count id' obj (hcases hobj)

theorem carried_next (hguard : keepsTransitions cfg s l)
    (hnext : NestMessages.next cfg s l = some s') : Carried s' := by
  cases step_of_next hnext with
  | sent | delayed => exact h.snoc rfl (fun _ ht => by cases ht) (fun _ _ ht => by cases ht)
  | item hit he =>
    exact h.apply hit (moves_itemStep h (mem_of_getElem? hit) (hguard _ hit) he)
  | request hobj hvalid =>
    refine h.snoc rfl (fun _ ht => ?_) (fun _ _ ht hhand => ?_)
    · cases ht
      exact GroupTransitionRequest.state_of_valid hvalid
    · cases ht
      cases hhand
      exact hobj
  | bind hreq hcall => exact carried_bind h hreq hcall rfl
  | @pop _ w m hit | @due _ m hit =>
    refine h.apply hit (h.moves_msg (mem_of_getElem? hit) ?_ ?_ ?_ rfl) <;> cases m <;> rfl
  | stop => exact hguard.elim
  | load hnone => exact carried_load h hnone hguard
  | remove => exact carried_remove h _
  | _ => exact { h with }

end

theorem carried_of_reach
    (h : Reach (NestMessages.next cfg) (· = initial) (keepsTransitions cfg) s) : Carried s := by
  refine h.invariant ?_ ?_
  · rintro _ rfl
    refine ⟨?_, ?_, ?_, ?_, ?_, ?_⟩ <;> simp [initial]
  · intro s l s' hinv hguard hnext
    exact carried_next hinv hguard hnext

end Steps

/-- A pending transition is carried by an item, if no step drops one. -/
theorem pending_carried {cfg : Config} {s : Nest}
    (h : Reach (NestMessages.next cfg) (· = initial) (keepsTransitions cfg) s) (id : Int)
    (obj : Nat)
    (hmanaged : s.managed id = some obj) (hpending : (s.base obj).groupTransitionPending = true) :
    ∃ it ∈ s.items, carries id it = true := by
  apply countP_pos_iff.mp
  rw [(carried_of_reach h).count id obj hmanaged, hpending]
  exact Nat.one_pos

section Runs

def smallQueue : Config where
  hash _ := 0
  workerNum _ := 1
  queueCap := 16
  delayedMsgCap := 0
  maxDelay := 0
  remote _ := false

def asyncCall : Call where
  type := .single
  key := 8
  cost := false
  retChan := none
  pendingRequeues := 0

def keepsTest (cfg : Config) (s : Nest) : Label → Bool
  | .step i choice => s.items[i]?.all fun it => !loses cfg s it choice
  | .load id => s.items.all fun it => (transition it).all fun t => t.req.entityID ≠ id
  | .stop => false
  | _ => true

theorem keepsTransitions_of_test {cfg : Config} {s : Nest} (h : keepsTest cfg s l = true) :
    keepsTransitions cfg s l := by
  cases l with
  | step =>
    intro it hit
    simpa [keepsTest, hit] using h
  | load =>
    intro it hit t ht
    have hall := all_eq_true.mp h it hit
    simpa [ht] using hall
  | stop => cases h
  | _ => trivial

def requestJoin : List Label :=
  [.request none ⟨7, 9, .join⟩ none, .step 0 .ok, .step 0 .ok, .step 0 .ok]

theorem pending_carried_retry :
    ∃ s, Reach (NestMessages.next smallQueue) (· = initial) (keepsTransitions smallQueue) s ∧
      s.managed 7 = some 0 ∧ (s.base 0).groupTransitionPending = true ∧
      s.items = [.delayed (.transition ⟨⟨7, 9, .join⟩, 1, none⟩)] ∧
      ∃ it ∈ s.items, carries 7 it = true := by
  refine exists_reach_imp (P := fun s => s.managed 7 = some 0 ∧
      (s.base 0).groupTransitionPending = true ∧
      s.items = [.delayed (.transition ⟨⟨7, 9, .join⟩, 1, none⟩)])
    (exists_of_run rfl (keepsTest smallQueue)
      ([.load 7] ++ requestJoin ++ replicate 4 (.step 0 .ok) ++
        [.pop 0, .step 0 .ok, .step 0 .busy, .step 0 .ok])
      (fun _ _ _ => keepsTransitions_of_test) (by decide +kernel)) ?_
  rintro s hreach ⟨hmanaged, hpending, hitems⟩
  exact ⟨hmanaged, hpending, hitems, pending_carried hreach 7 0 hmanaged hpending⟩

/-- The queue is full when the message of a join is sent, and the entity stays behind its gate. -/
theorem full_queue_orphans :
    ∃ s, Reach (NestMessages.next smallQueue) (· = initial) anyStep s ∧ s.stopped = false ∧
      s.fenced = false ∧ s.managed 7 = some 0 ∧ (s.base 0).groupTransitionPending = true ∧
      ∀ it ∈ s.items, transition it = none := by
  exact exists_of_anyRun rfl
    ([.load 7] ++ requestJoin ++
      ((range 16).flatMap fun i => .client asyncCall 0 :: replicate 4 (.step (i + 1) .ok)) ++
      [.step 0 .ok] ++ replicate 3 (.step 16 .ok))
    (by decide +kernel)

end Runs

end CubeCore.PendingTransitions
