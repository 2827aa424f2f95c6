import CubeCore.NestMessages
import Mathlib.Data.List.Count
import Mathlib.Data.List.Flatten
import Mathlib.Algebra.Order.Group.Nat

namespace CubeCore.ReplyTokens

open EntityGroup NestMessages TransitionSystem List Nat

def transitionChannels (t : Transition) : List Nat := (t.continuation.bind (·.retChan)).toList

def msgChannels : Msg → List Nat
  | .call c => c.retChan.toList
  | .transition t => transitionChannels t

def channels : Item → List Nat
  | .sending m _ _ | .queued _ m | .delayed m => msgChannels m
  | .handling _ c => c.retChan.toList
  | .transiting _ t _ | .requesting _ t _ _ => transitionChannels t

def owed : Item → List Nat
  | .sending _ _ .client => []
  | it => channels it

def tokens (s : Nest) : List Nat := s.items.flatMap channels ++ s.replies

def effectTokens (e : Effect) : List Nat := e.items.flatMap channels ++ e.replies

section Rewriting

variable {s : Nest} {it : Item} {i : Nat}

theorem tokens_perm (h : s.items[i]? = some it) :
    (tokens s).Perm (channels it ++ ((s.items.eraseIdx i).flatMap channels ++ s.replies)) := by
  have hperm := ((items_perm h).flatMap_right channels).append_right s.replies
  simpa [tokens] using hperm

theorem tokens_apply (e : Effect) :
    (tokens (s.apply i e)).Perm
      (effectTokens e ++ ((s.items.eraseIdx i).flatMap channels ++ s.replies)) := by
  simp only [tokens, Nest.apply, effectTokens, flatMap_append]
  rw [perm_iff_count]
  intro c
  simp only [count_append]
  omega

end Rewriting

section Effects

variable {cfg : Config} {s : Nest} {e : Effect} {choice : Choice}

/-- The step of a transition dispatch that loses the continuation's channel. -/
def dropsContinuation (cfg : Config) (s : Nest) (t : Transition) : DispatchStage → Choice → Bool
  | .start, .failed => true
  | .retrying, .ok =>
    t.attempts + 1 < entityGroupTransitionRetryMax &&
      !admitsDelay cfg s entityGroupTransitionRetryDelay
  | .clearingState _ true, _ => t.continuation.any (·.handler = "")
  | _, _ => false

/-- A transition message with a continuation is turned away or not dispatched, the continuation has
no handler, or the deferred part panics before the reply. -/
def drops (cfg : Config) (s : Nest) : Item → Choice → Bool
  | .sending (.transition t) stage _, _ => !sendable cfg s (.transition t) stage
  | .handling _ _, .escaped => true
  | .transiting _ t stage, choice => dropsContinuation cfg s t stage choice
  | _, _ => false

/-- Items that do not touch a worker's queue, and are not a client's. -/
def plain : Item → Bool
  | .sending _ .flags .dispatch | .delayed _ | .handling _ _ | .transiting _ _ _ => true
  | _ => false

/-- A dispatch hands the channels it has on, or answers them, unless it drops them. -/
structure HandedOn (e : Effect) (held : List Nat) (dropped : Bool) : Prop where
  tokens : effectTokens e = held ∨ dropped = true ∧ effectTokens e = []
  plain : ∀ it ∈ e.items, plain it = true
  accepted : e.accepted = []

theorem tokens_become (it : Item) : effectTokens (become s [it]) = channels it := by
  simp [effectTokens, become]

theorem handedOn_reply (channel : Option Nat) (dropped : Bool) :
    HandedOn (reply s channel) channel.toList dropped :=
  ⟨.inl rfl, by simp [reply], rfl⟩

theorem handedOn_nil (held : List Nat) : HandedOn (become s []) held true :=
  ⟨.inr ⟨rfl, rfl⟩, by simp [become], rfl⟩

theorem handedOn_become (hplain : plain it = true) (hheld : channels it = held) (dropped : Bool) :
    HandedOn (become s [it]) held dropped :=
  ⟨.inl ((tokens_become it).trans hheld), by simpa [become] using hplain, rfl⟩

theorem HandedOn.write {held : List Nat} {dropped : Bool} (h : HandedOn e held dropped) (obj : Nat)
    (f : GroupBase → GroupBase) : HandedOn (e.write obj f) held dropped :=
  ⟨h.tokens, h.plain, h.accepted⟩

theorem handedOn_delayCall (delay : Nat) (c : Call) (dropped : Bool) :
    HandedOn (delaySend cfg s delay (.call c)) c.retChan.toList dropped := by
  unfold delaySend
  split
  · exact handedOn_become rfl rfl _
  · exact handedOn_reply _ _

theorem handedOn_delayTransition (delay : Nat) (t : Transition) :
    HandedOn (delaySend cfg s delay (.transition t)) (transitionChannels t)
      (!admitsDelay cfg s delay) := by
  unfold delaySend
  split_ifs with hfull
  · exact handedOn_become rfl rfl _
  · rw [Bool.not_eq_true] at hfull
    rw [hfull]
    exact handedOn_nil _

theorem handedOn_finish (h : finish cfg s c choice = some e) :
    HandedOn e c.retChan.toList (drops cfg s (.handling w c) choice) := by
  apply of_eq_some h
  fun_cases finish cfg s c choice with
  | case3 | case5 => exact handedOn_delayCall _ _ _
  | case7 => exact handedOn_nil _
  | case8 => trivial
  | _ => exact handedOn_reply _ _

theorem handedOn_continuation (t : Transition) :
    HandedOn (dispatchGroupTransitionContinuation cfg s t) (transitionChannels t)
      (t.continuation.any (·.handler = "")) := by
  unfold dispatchGroupTransitionContinuation transitionChannels
  cases t.continuation with
  | none => exact handedOn_reply none _
  | some cont =>
    by_cases hname : cont.handler = ""
    · simp only [hname, true_or, if_true, Option.any_some, decide_true]
      exact handedOn_nil _
    cases hchan : cont.retChan with
    | none =>
      simp only [hchan, or_true, if_true, Option.bind_some]
      exact handedOn_reply none _
    | some =>
      simp only [hname, hchan, reduceCtorEq, or_self, if_false, Option.bind_some]
      exact handedOn_become rfl rfl _

theorem handedOn_transitStep (h : transitStep cfg s w t stage choice = some e) :
    HandedOn e (transitionChannels t) (dropsContinuation cfg s t stage choice) := by
  have hgoOn : ∀ {t' : Transition} {stage' : DispatchStage} {dropped : Bool},
      transitionChannels t' = transitionChannels t →
      HandedOn (become s [.transiting w t' stage']) (transitionChannels t) dropped := by
    intro t' stage' dropped heq
    have hchan : channels (.transiting w t' stage') = transitionChannels t := heq
    exact handedOn_become rfl hchan dropped
  have hcomplete : ∀ {dropped : Bool}, HandedOn (complete s t) (transitionChannels t) dropped :=
    handedOn_reply _ _
  apply of_eq_some h
  fun_cases transitStep cfg s w t stage choice with
  | case1 => exact handedOn_nil _
  | case3 | case17 => exact hcomplete
  | case5 | case18 =>
    refine elim_of_eq_some fun _ h => ?_
    obtain ⟨obj, _, rfl⟩ := Option.map_eq_some_iff.mp h
    exact hgoOn rfl
  | case6 | case7 | case11 | case14 | case15 => exact hgoOn rfl
  | case8 | case9 =>
    split
    · exact hgoOn rfl
    · exact hcomplete
  | case10 | case12 => exact (hgoOn rfl).write _ _
  | case13 _ done =>
    apply HandedOn.write
    cases done with
    | false => exact hcomplete
    | true => exact handedOn_continuation t
  | case16 hmax =>
    have hlt : t.attempts + 1 < entityGroupTransitionRetryMax := Nat.lt_of_not_le hmax
    simp only [dropsContinuation, hlt, decide_true, Bool.true_and]
    exact handedOn_delayTransition _ _
  | _ => trivial

theorem sendStep_cases (cfg : Config) (s : Nest) (m : Msg) (stage : SendStage) (origin : Origin) :
    (sendable cfg s m stage = true ∧ stage = .push ∧ sendStep cfg s m stage origin =
        { become s [.queued (cfg.worker m) m] with
          accepted := if origin = .client then m.retChan.toList else [] }) ∨
      (sendable cfg s m stage = true ∧ stage ≠ .push ∧ ∃ stage',
        (stage' = .push → stage = .closed) ∧
        sendStep cfg s m stage origin = become s [.sending m stage' origin]) ∨
      (sendable cfg s m stage = false ∧ sendStep cfg s m stage origin = reject s m origin) := by
  rcases hsend : sendable cfg s m stage with _ | _
  · exact .inr (.inr ⟨rfl, by simp [sendStep, hsend]⟩)
  cases stage with
  | flags => exact .inr (.inl ⟨rfl, by simp, .pick, by simp, by simp [sendStep, hsend]⟩)
  | pick => exact .inr (.inl ⟨rfl, by simp, .closed, by simp, by simp [sendStep, hsend]⟩)
  | closed => exact .inr (.inl ⟨rfl, by simp, .push, by simp, by simp [sendStep, hsend]⟩)
  | push => exact .inl ⟨rfl, rfl, by simp [sendStep, hsend]⟩

theorem tokens_reject (m : Msg) (origin : Origin) :
    effectTokens (reject s m origin) = if origin = .client then [] else m.retChan.toList := by
  cases origin <;> rfl

theorem handsOn_sendStep (m : Msg) (stage : SendStage) (origin : Origin) :
    effectTokens (sendStep cfg s m stage origin) = msgChannels m ∨
      effectTokens (sendStep cfg s m stage origin) = [] := by
  obtain ⟨_, _, heq⟩ | ⟨_, _, stage', _, heq⟩ | ⟨_, heq⟩ := sendStep_cases cfg s m stage origin
  · rw [heq]
    exact .inl (tokens_become (s := s) (.queued _ m))
  · rw [heq]
    exact .inl (tokens_become (.sending m stage' origin))
  · rw [heq, tokens_reject]
    split
    · exact .inr rfl
    · cases m with
      | call => exact .inl rfl
      | transition => exact .inr rfl

theorem requestStep_items (h : requestStep s caller t obj stage = some e) :
    e.replies = [] ∧ e.accepted = [] ∧
      (e.items = [] ∨ e.items = [.sending (.transition t) .flags .dispatch] ∨
        ∃ stage', e.items = [.requesting caller t obj stage']) := by
  apply of_eq_some h
  fun_cases requestStep s caller t obj stage with
  | case1 =>
    split
    · exact ⟨rfl, rfl, .inr (.inr ⟨_, rfl⟩)⟩
    · exact ⟨rfl, rfl, .inl rfl⟩
  | case3 => exact ⟨rfl, rfl, .inr (.inl rfl)⟩
  | case2 | case5 | case6 => exact ⟨rfl, rfl, .inr (.inr ⟨_, rfl⟩)⟩
  | case4 => trivial
  | case7 => exact ⟨rfl, rfl, .inl rfl⟩

theorem handsOn_requestStep (h : requestStep s caller t obj stage = some e) :
    effectTokens e = transitionChannels t ∨ effectTokens e = [] := by
  obtain ⟨hreplies, -, hnil | hsent | ⟨stage', hnext⟩⟩ := requestStep_items h
  · exact .inr (by simp [effectTokens, hreplies, hnil])
  · exact .inl (by simp [effectTokens, hreplies, hsent, channels, msgChannels])
  · exact .inl (by simp [effectTokens, hreplies, hnext, channels])

theorem handsOn_itemStep (h : itemStep cfg s it choice = some e) :
    effectTokens e = channels it ∨ effectTokens e = [] := by
  cases it with
  | sending m stage origin =>
    cases choice with
    | ok =>
      cases h
      exact handsOn_sendStep m stage origin
    | _ => cases h
  | handling w =>
    simp only [itemStep] at h
    split_ifs at h
    exact (handedOn_finish (w := w) h).tokens.imp_right And.right
  | transiting => exact (handedOn_transitStep h).tokens.imp_right And.right
  | requesting =>
    cases choice with
    | ok => exact handsOn_requestStep h
    | _ => cases h
  | _ => cases h

end Effects

section AtMostOne

variable {cfg : Config} {s s' : Nest}

/-- No channel is in two hands, and none is known that was not made. -/
structure Linear (s : Nest) : Prop where
  nodup : (tokens s).Nodup
  made : ∀ c ∈ tokens s, c < s.channels

theorem Linear.of_subperm (h : Linear s) (hsub : (tokens s').Subperm (tokens s))
    (hchan : s.channels ≤ s'.channels) : Linear s' := by
  obtain ⟨l, hperm, hsublist⟩ := hsub
  refine ⟨hperm.nodup_iff.mp (h.nodup.sublist hsublist), fun c hc => ?_⟩
  exact lt_of_lt_of_le (h.made c (hsublist.subset (hperm.symm.subset hc))) hchan

theorem subperm_apply (hit : s.items[i]? = some it)
    (h : effectTokens e = channels it ∨ effectTokens e = []) :
    (tokens (s.apply i e)).Subperm (tokens s) := by
  refine (tokens_apply e).subperm.trans (List.Subperm.trans ?_ (tokens_perm hit).symm.subperm)
  rcases h with heq | hnil
  · rw [heq]
  · rw [hnil]
    exact (sublist_append_right _ _).subperm

theorem Linear.fresh (h : Linear s) (hperm : (tokens s').Perm (s.channels :: tokens s))
    (hchan : s'.channels = s.channels + 1) : Linear s' := by
  have hout : s.channels ∉ tokens s := fun hmem => lt_irrefl _ (h.made _ hmem)
  refine ⟨hperm.nodup_iff.mpr (nodup_cons.mpr ⟨hout, h.nodup⟩), fun c hc => ?_⟩
  rw [hchan]
  rcases mem_cons.mp (hperm.subset hc) with rfl | hold
  · exact lt_succ_self _
  · exact lt_succ_of_lt (h.made c hold)

theorem tokens_snoc (it : Item) (items : List Item) (replies : List Nat) :
    ((items ++ [it]).flatMap channels ++ replies).Perm
      (channels it ++ (items.flatMap channels ++ replies)) := by
  rw [perm_iff_count]
  intro c
  simp only [flatMap_append, flatMap_cons, flatMap_nil, append_nil, count_append]
  omega

theorem Linear.client (h : Linear s) {c : Call} (hit : channels it = c.retChan.toList)
    (hchan : ∀ channel ∈ c.retChan, channel = s.channels) :
    Linear { s with
      channels := s.channels + c.retChan.toList.length
      items := s.items ++ [it]
      accepted := accepted } := by
  have hperm := tokens_snoc it s.items s.replies
  rw [hit] at hperm
  cases hcall : c.retChan with
  | none =>
    rw [hcall] at hperm
    exact h.of_subperm hperm.subperm (le_add_right _ _)
  | some channel =>
    rw [hcall, hchan channel hcall] at hperm
    exact h.fresh hperm rfl

theorem linear_next {l : Label} (h : Linear s) (hnext : NestMessages.next cfg s l = some s') :
    Linear s' := by
  -- most steps leave the channels where they are
  have hsame : ∀ {s' : Nest}, tokens s' = tokens s → s'.channels = s.channels → Linear s' := by
    intro s' htokens hchan
    exact h.of_subperm (by rw [htokens]) (by rw [hchan])
  cases step_of_next hnext with
  | rejected => exact h.of_subperm (List.Subperm.refl _) (le_add_right _ _)
  | sent hchan | delayed hchan => exact h.client rfl hchan
  | item hit he => exact h.of_subperm (subperm_apply hit (handsOn_itemStep he)) le_rfl
  | @request _ _ _ handler =>
    refine hsame ?_ rfl
    cases handler <;> simp [tokens, channels, transitionChannels]
  | bind hreq hcall _ hchan =>
    obtain ⟨rest, hold, hnew⟩ := bind_perm hreq hcall _ _
    refine h.of_subperm ?_ le_rfl
    refine ((hnew.flatMap_right channels).append_right _).subperm.trans (List.Subperm.trans ?_
      ((hold.flatMap_right channels).append_right _).symm.subperm)
    simp only [flatMap_cons, channels, msgChannels, transitionChannels, hchan,
      Option.bind_some, Option.toList, nil_append, append_assoc]
    exact (sublist_append_right _ _).subperm
  | @pop _ w m hit =>
    refine h.of_subperm (subperm_apply hit (.inl ?_)) le_rfl
    rw [tokens_become]
    cases m <;> rfl
  | due hit => exact h.of_subperm (subperm_apply hit (.inl (tokens_become _))) le_rfl
  | stop =>
    refine h.of_subperm ?_ le_rfl
    exact ((filter_sublist.flatMap channels).append_right _).subperm
  | _ => exact hsame rfl rfl

theorem linear_of_reach {guard} (h : Reach (NestMessages.next cfg) (· = initial) guard s) :
    Linear s := by
  refine h.invariant ?_ ?_
  · rintro _ rfl
    exact ⟨nodup_nil, by simp [tokens, initial]⟩
  · intro s l s' hinv _ hnext
    exact linear_next hinv hnext

end AtMostOne

end CubeCore.ReplyTokens
