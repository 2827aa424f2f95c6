import CubeCore.ReplyTokens

namespace CubeCore.OneReply

open NestMessages ReplyTokens TransitionSystem Function List

variable {l : Label}

section ExactlyOne

variable {cfg : Config} {s s' : Nest} {e : Effect} {choice : Choice}

/-- No item with a channel is dropped, the dispatcher stops when no delayed message has one, and no
worker exits while a send to it is between its check and its push. -/
def keepsReplies (cfg : Config) (s : Nest) : Label → Prop
  | .step i choice => ∀ it, s.items[i]? = some it → channels it ≠ [] → drops cfg s it choice = false
  | .stop => ∀ m, .delayed m ∈ s.items → msgChannels m = []
  | .exit w => ∀ it ∈ s.items, it.pushesTo cfg w = false
  | _ => True

/-- An item is not on a worker that has exited nor about to be pushed to one, and a request has no
channel before it is bound. -/
structure Placed (cfg : Config) (exited : Worker → Bool) (it : Item) : Prop where
  queued : ∀ w, exited w = true → it.queuedOn w = false
  pushed : ∀ w, exited w = true → it.pushesTo cfg w = false
  unbound : ∀ w t obj stage, it = .requesting w t obj stage → transitionChannels t = []

/-- What was accepted is owed by an item or answered. -/
structure Accounted (cfg : Config) (s : Nest) : Prop where
  closed : ∀ w, s.exited w = true → s.closed w = true
  placed : ∀ it ∈ s.items, Placed cfg s.exited it
  accounted : ∀ c ∈ s.accepted, c ∈ s.items.flatMap owed ++ s.replies

variable {exited : Worker → Bool}

theorem placed_flags (m : Msg) (origin : Origin) : Placed cfg exited (.sending m .flags origin) :=
  ⟨fun _ _ => rfl, fun _ _ => rfl, fun _ _ _ _ heq => by cases heq⟩

variable {t : Transition}

theorem placed_requesting (h : transitionChannels t = []) (caller : Option Worker) (obj : Nat)
    (stage : RequestStage) : Placed cfg exited (.requesting caller t obj stage) := by
  refine ⟨fun _ _ => rfl, fun _ _ => rfl, fun _ _ _ _ heq => ?_⟩
  cases heq
  exact h

variable {it : Item}

theorem placed_plain (h : plain it = true) : Placed cfg exited it := by
  cases it with
  | sending m stage origin =>
    cases stage with
    | flags => exact placed_flags m origin
    | _ => cases h
  | delayed | handling | transiting =>
    exact ⟨fun _ _ => rfl, fun _ _ => rfl, fun _ _ _ _ heq => by cases heq⟩
  | _ => cases h

theorem owed_plain (h : plain it = true) : owed it = channels it := by
  cases it with
  | sending m stage origin =>
    cases origin with
    | client => cases stage <;> cases h
    | _ => rfl
  | _ => rfl

theorem mem_channels_of_owed {c : Nat} (h : c ∈ owed it) : c ∈ channels it := by
  cases it with
  | sending _ _ origin =>
    cases origin with
    | client => exact absurd h not_mem_nil
    | _ => exact h
  | _ => exact h

variable {m : Msg} {origin : Origin} {i : Nat}

theorem placed_sendStep {stage : SendStage} (h : Accounted cfg s)
    (hit : Placed cfg s.exited (.sending m stage origin)) :
    ∀ it ∈ (sendStep cfg s m stage origin).items, Placed cfg s.exited it := by
  obtain ⟨_, rfl, heq⟩ | ⟨hsend, _, stage', hpush, heq⟩ | ⟨_, heq⟩ :=
    sendStep_cases cfg s m stage origin
  · suffices Placed cfg s.exited (.queued (cfg.worker m) m) by simpa [heq, become] using this
    refine ⟨fun w hw => ?_, fun _ _ => rfl, fun _ _ _ _ hne => by cases hne⟩
    simpa [Item.queuedOn, Item.pushesTo] using hit.pushed w hw
  · suffices Placed cfg s.exited (.sending m stage' origin) by simpa [heq, become] using this
    refine ⟨fun _ _ => rfl, fun w hw => ?_, fun _ _ _ _ hne => by cases hne⟩
    cases stage' with
    | push =>
      -- the worker was open, so it has not exited
      obtain rfl := hpush rfl
      have hopen : s.closed (cfg.worker m) = false := by simpa [sendable] using hsend
      have hne : cfg.worker m ≠ w := by
        rintro rfl
        rw [h.closed _ hw] at hopen
        cases hopen
      simp [Item.pushesTo, hne]
    | _ => rfl
  · cases origin <;> simp [heq, reject, become, reply]

variable {obj : Nat}

theorem placed_requestStep {caller : Option Worker} {stage : RequestStage}
    (ht : transitionChannels t = []) (h : requestStep s caller t obj stage = some e) :
    ∀ it ∈ e.items, Placed cfg s.exited it := by
  obtain ⟨-, -, hnil | hsent | ⟨stage', hnext⟩⟩ := requestStep_items h
  · simp [hnil]
  · simpa [hsent] using placed_plain rfl
  · simpa [hnext] using placed_requesting ht _ _ _

theorem placed_itemStep (h : Accounted cfg s) (hit : it ∈ s.items)
    (he : itemStep cfg s it choice = some e) : ∀ it' ∈ e.items, Placed cfg s.exited it' := by
  cases it with
  | sending =>
    cases choice with
    | ok =>
      cases he
      exact placed_sendStep h (h.placed _ hit)
    | _ => cases he
  | handling w =>
    simp only [itemStep] at he
    split_ifs at he
    exact fun it' hit' => placed_plain ((handedOn_finish (w := w) he).plain it' hit')
  | transiting =>
    exact fun it' hit' => placed_plain ((handedOn_transitStep he).plain it' hit')
  | requesting =>
    cases choice with
    | ok => exact placed_requestStep ((h.placed _ hit).unbound _ _ _ _ rfl) he
    | _ => cases he
  | _ => cases he

/-- The items that come of a step owe what the item owed, or it was answered. -/
def Owes (e : Effect) (held : List Nat) : Prop :=
  (∀ c ∈ held, c ∈ e.items.flatMap owed ++ e.replies) ∧ ∀ c ∈ e.accepted, c ∈ e.items.flatMap owed

theorem owes_of_handedOn {held : List Nat} {dropped : Bool} (h : HandedOn e held dropped)
    (hkept : held ≠ [] → dropped = false) : Owes e held := by
  constructor
  · intro c hc
    have hdropped := hkept (ne_nil_of_mem hc)
    have htokens : effectTokens e = held := by
      rcases h.tokens with heq | ⟨hdrop, _⟩
      · exact heq
      · rw [hdropped] at hdrop
        cases hdrop
    rw [← htokens] at hc
    rcases mem_append.mp hc with hitem | hreply
    · obtain ⟨it, hit, hc⟩ := mem_flatMap.mp hitem
      rw [← owed_plain (h.plain it hit)] at hc
      exact mem_append_left _ (mem_flatMap.mpr ⟨it, hit, hc⟩)
    · exact mem_append_right _ hreply
  · simp [h.accepted]

theorem owes_sendStep {stage : SendStage}
    (hkept : msgChannels m ≠ [] → drops cfg s (.sending m stage origin) .ok = false) :
    Owes (sendStep cfg s m stage origin) (owed (.sending m stage origin)) := by
  have hchan : ∀ {c}, c ∈ m.retChan.toList → c ∈ msgChannels m := by
    intro c hc
    cases m with
    | call => exact hc
    | transition => exact absurd hc not_mem_nil
  obtain ⟨_, rfl, heq⟩ | ⟨_, _, stage', _, heq⟩ | ⟨hsend, heq⟩ :=
    sendStep_cases cfg s m stage origin
  · rw [heq]
    constructor
    · intro c hc
      have hc := mem_channels_of_owed hc
      simpa [become, owed, channels] using hc
    intro c hc
    dsimp only at hc
    split at hc
    · simpa [become, owed, channels] using hchan hc
    · exact absurd hc not_mem_nil
  · rw [heq]
    constructor
    · intro c hc
      cases origin with
      | client => exact absurd hc not_mem_nil
      | _ => simpa [become, owed, channels] using hc
    · simp [become]
  · rw [heq]
    cases origin with
    | client => exact ⟨fun c hc => absurd hc not_mem_nil, by simp [reject, become]⟩
    | _ =>
      refine ⟨fun c hc => ?_, by simp [reject, reply]⟩
      cases m with
      | call => simpa [reject, reply, owed, channels, msgChannels, Msg.retChan] using hc
      | transition =>
        have hdrop := hkept (ne_nil_of_mem hc)
        simp [drops, hsend] at hdrop

theorem owes_itemStep (h : Accounted cfg s) (hit : it ∈ s.items)
    (hkept : channels it ≠ [] → drops cfg s it choice = false)
    (he : itemStep cfg s it choice = some e) : Owes e (owed it) := by
  cases it with
  | sending =>
    cases choice with
    | ok =>
      cases he
      exact owes_sendStep hkept
    | _ => cases he
  | handling =>
    simp only [itemStep] at he
    split_ifs at he
    exact owes_of_handedOn (handedOn_finish he) hkept
  | transiting => exact owes_of_handedOn (handedOn_transitStep he) hkept
  | requesting caller t obj stage =>
    have hnil : owed (.requesting caller t obj stage) = [] := (h.placed _ hit).unbound _ _ _ _ rfl
    rw [hnil]
    refine ⟨fun c hc => absurd hc not_mem_nil, ?_⟩
    cases choice with
    | ok =>
      suffices e.accepted = [] by simp [this]
      exact (requestStep_items he).2.1
    | _ => cases he
  | _ => cases he

theorem Accounted.apply (h : Accounted cfg s) (hit : s.items[i]? = some it)
    (hplaced : ∀ it' ∈ e.items, Placed cfg s.exited it') (howes : Owes e (owed it)) :
    Accounted cfg (s.apply i e) := by
  refine ⟨h.closed, forall_mem_append.mpr ⟨fun it' hold => ?_, hplaced⟩, fun c hc => ?_⟩
  · exact h.placed it' (mem_of_mem_eraseIdx hold)
  simp only [Nest.apply, flatMap_append, mem_append] at hc ⊢
  rcases hc with hold | hnew
  · rcases mem_append.mp (h.accounted c hold) with howed | hreplied
    · have hperm := (items_perm hit).flatMap_right owed
      rcases mem_append.mp (hperm.subset howed) with hthis | hother
      · exact (mem_append.mp (howes.1 c hthis)).imp .inr .inr
      · exact .inl (.inl hother)
    · exact .inr (.inl hreplied)
  · exact .inl (.inr (howes.2 c hnew))

theorem owes_become {it' : Item} (h : owed it' = owed it) : Owes (become s [it']) (owed it) := by
  constructor
  · intro c hc
    simpa [become, h] using hc
  · simp [become]

section

variable (h : Accounted cfg s)
include h

theorem Accounted.snoc {accepted : List Nat} {channels : Nat} (hplaced : Placed cfg s.exited it)
    (hacc : ∀ c ∈ accepted, c ∈ s.accepted ∨ c ∈ owed it) :
    Accounted cfg { s with
      channels := channels
      items := s.items ++ [it]
      accepted := accepted } := by
  refine ⟨h.closed, ?_, fun c hc => ?_⟩
  · rw [forall_mem_append, forall_mem_singleton]
    exact ⟨h.placed, hplaced⟩
  simp only [flatMap_append, mem_append]
  rcases hacc c hc with hold | hnew
  · exact (mem_append.mp (h.accounted c hold)).imp .inl id
  · exact .inl (.inr (by simpa using hnew))

theorem accounted_stop (hguard : keepsReplies cfg s .stop) :
    Accounted cfg { s with
      stopped := true
      items := s.items.filter fun it => !it.isDelayed } := by
  refine ⟨h.closed, fun it hit => h.placed it (mem_of_mem_filter hit), fun c hc => ?_⟩
  rcases mem_append.mp (h.accounted c hc) with howed | hreplied
  · obtain ⟨it, hit, hc⟩ := mem_flatMap.mp howed
    refine mem_append_left _ (mem_flatMap.mpr ⟨it, mem_filter.mpr ⟨hit, ?_⟩, hc⟩)
    cases it with
    | delayed m =>
      have hnil := hguard m hit
      simp [owed, channels, hnil] at hc
    | _ => rfl
  · exact mem_append_right _ hreplied

variable {w : Worker}

theorem accounted_exit (hguard : keepsReplies cfg s (.exit w)) (hclosed : s.closed w = true)
    (hempty : s.items.any (Item.queuedOn w) = false ∨ s.items.any (Item.pushesTo cfg w) = true) :
    Accounted cfg { s with exited := update s.exited w true } := by
  have hnone : s.items.any (Item.queuedOn w) = false := by
    rcases hempty with hempty | hpushes
    · exact hempty
    · obtain ⟨it, hit, hpush⟩ := any_eq_true.mp hpushes
      rw [hguard it hit] at hpush
      cases hpush
  have hexited : ∀ {w'}, update s.exited w true w' = true → w' = w ∨ s.exited w' = true := by
    intro w' hw'
    by_cases heq : w' = w
    · exact .inl heq
    · exact .inr (by simpa [heq] using hw')
  refine ⟨fun w' hw' => ?_, fun it hit => ⟨fun w' hw' => ?_, fun w' hw' => ?_, ?_⟩, h.accounted⟩
  · rcases hexited hw' with rfl | hold
    · exact hclosed
    · exact h.closed w' hold
  · rcases hexited hw' with rfl | hold
    · simpa using any_eq_false.mp hnone it hit
    · exact (h.placed it hit).queued w' hold
  · rcases hexited hw' with rfl | hold
    · exact hguard it hit
    · exact (h.placed it hit).pushed w' hold
  · exact (h.placed it hit).unbound

theorem accounted_bind {j : Nat} {t' : Transition} {c' c : Call}
    (hreq : s.items[i]? = some (.requesting (some w) t obj .stored))
    (hcall : s.items[j]? = some (.handling w c)) (ht : transitionChannels t' = c.retChan.toList) :
    Accounted cfg { s with
      items := ((s.items.set j (.handling w c')).eraseIdx i) ++
        [.sending (.transition t') .flags .dispatch] } := by
  obtain ⟨rest, hold, hnew⟩ := bind_perm hreq hcall c' (.sending (.transition t') .flags .dispatch)
  refine ⟨h.closed, fun it hit => ?_, fun channel hchannel => ?_⟩
  · rcases mem_cons.mp (hnew.subset hit) with rfl | hit
    · exact placed_plain rfl
    · rcases mem_cons.mp hit with rfl | hit
      · exact placed_plain rfl
      · exact h.placed it (hold.symm.subset (.tail _ (.tail _ hit)))
  rcases mem_append.mp (h.accounted channel hchannel) with howed | hreplied
  · apply mem_append_left
    apply (hnew.flatMap_right owed).symm.subset
    have hnil := (h.placed _ (mem_of_getElem? hreq)).unbound _ _ _ _ rfl
    have howed := (hold.flatMap_right owed).subset howed
    simp only [flatMap_cons, owed, channels, msgChannels, hnil, ht, nil_append,
      mem_append] at howed ⊢
    exact howed.imp id .inr
  · exact mem_append_right _ hreplied

theorem accounted_next (hguard : keepsReplies cfg s l)
    (hnext : NestMessages.next cfg s l = some s') : Accounted cfg s' := by
  cases step_of_next hnext with
  | rejected | fence | stopPool | load | remove => exact ⟨h.closed, h.placed, h.accounted⟩
  | sent => exact h.snoc (placed_flags _ _) fun _ hc => .inl hc
  | delayed => exact h.snoc (placed_plain rfl) fun _ hc => mem_append.mp hc
  | item hit he =>
    have hmem := mem_of_getElem? hit
    exact h.apply hit (placed_itemStep h hmem he) (owes_itemStep h hmem (hguard _ hit) he)
  | @request _ _ _ handler =>
    refine h.snoc (placed_requesting ?_ _ _ _) fun _ hc => .inl hc
    cases handler <;> rfl
  | bind hreq hcall _ hchan => exact accounted_bind h hreq hcall (by rw [hchan]; rfl)
  | @pop _ w m hit =>
    refine h.apply hit ?_ (owes_become ?_)
    · cases m <;> simpa [become, taken] using placed_plain rfl
    · cases m <;> rfl
  | due hit =>
    refine h.apply hit ?_ (owes_become rfl)
    simpa [become] using placed_flags _ _
  | stop => exact accounted_stop h hguard
  | close =>
    refine ⟨fun w' hw' => ?_, h.placed, h.accounted⟩
    simp only [update_apply]
    split
    · rfl
    · exact h.closed w' hw'
  | exit hclosed hempty => exact accounted_exit h hguard hclosed hempty

end

theorem accounted_of_reach (h : Reach (NestMessages.next cfg) (· = initial) (keepsReplies cfg) s) :
    Accounted cfg s := by
  refine h.invariant ?_ ?_
  · rintro _ rfl
    refine ⟨fun _ hw => ?_, by simp [initial], by simp [initial]⟩
    cases hw
  · intro s l s' hinv hguard hnext
    exact accounted_next hinv hguard hnext

/-- All that is left are messages in the queues of workers that have exited. -/
def Finished (s : Nest) : Prop :=
  ∀ it ∈ s.items, ∃ w, s.exited w = true ∧ it.queuedOn w = true

theorem items_of_finished (h : Accounted cfg s) (hfin : Finished s) : s.items = [] := by
  rw [eq_nil_iff_forall_not_mem]
  intro it hit
  obtain ⟨w, hexited, hqueued⟩ := hfin it hit
  rw [(h.placed it hit).queued w hexited] at hqueued
  cases hqueued

end ExactlyOne

/-- A channel never gets two values; it gets one, if no step drops the message that has it. -/
theorem one_reply (cfg : Config) :
    (∀ s, Reach (NestMessages.next cfg) (· = initial) anyStep s → ∀ c, s.replies.count c ≤ 1) ∧
      ∀ s, Reach (NestMessages.next cfg) (· = initial) (keepsReplies cfg) s → Finished s →
        ∀ c ∈ s.accepted, s.replies.count c = 1 := by
  have hnodup : ∀ {s : Nest}, Linear s → s.replies.Nodup := fun hlinear =>
    (nodup_append.mp hlinear.nodup).2.1
  constructor
  · intro s hreach c
    exact nodup_iff_count_le_one.mp (hnodup (linear_of_reach hreach)) c
  intro s hreach hfin c hc
  have hinv := accounted_of_reach hreach
  have hmem := hinv.accounted c hc
  rw [items_of_finished hinv hfin] at hmem
  exact count_eq_one_of_mem (hnodup (linear_of_reach hreach)) hmem

section Runs

def oneWorker : Config where
  hash _ := 0
  workerNum _ := 1
  queueCap := 16
  delayedMsgCap := 0
  maxDelay := 0
  remote _ := false

def mainWorker : Worker := ⟨.main, 0⟩

def syncCall : Call where
  type := .single
  key := 7
  cost := false
  retChan := some 0
  pendingRequeues := 0

def steps (n : Nat) : List Label := List.replicate n (.step 0 .ok)

def keepsTest (cfg : Config) (s : Nest) : Label → Bool
  | .step i choice => s.items[i]?.all fun it => channels it = [] || !drops cfg s it choice
  | .stop => s.items.all fun it => !it.isDelayed || channels it = []
  | .exit w => s.items.all fun it => !it.pushesTo cfg w
  | _ => true

theorem keepsReplies_of_test {cfg : Config} {s : Nest} (h : keepsTest cfg s l = true) :
    keepsReplies cfg s l := by
  cases l with
  | step =>
    intro it hit hne
    simpa [keepsTest, hit, hne] using h
  | stop =>
    intro m hm
    exact of_decide_eq_true (all_eq_true.mp h _ hm)
  | exit =>
    intro it hit
    simpa using all_eq_true.mp h it hit
  | _ => trivial

/-- A handler requests a transition with a continuation, which replies, and the workers stop. -/
theorem one_reply_continuation :
    ∃ s, Reach (NestMessages.next oneWorker) (· = initial) (keepsReplies oneWorker) s ∧
      Finished s ∧ s.exited mainWorker = true ∧ 0 ∈ s.accepted ∧ s.replies.count 0 = 1 := by
  refine exists_reach_imp (P := fun s => s.items = [] ∧ s.exited mainWorker = true ∧ 0 ∈ s.accepted)
    (exists_of_run rfl (keepsTest oneWorker)
      ([.load 7, .client syncCall 0] ++ steps 4 ++
        [.pop 0, .request (some mainWorker) ⟨7, 9, .join⟩ (some "Joined"), .step 1 .ok, .step 1 .ok,
          .bind 1 0] ++ steps 5 ++ [.pop 0] ++ steps 11 ++ [.pop 0] ++ steps 1 ++
        [.stop, .stopPool .main, .close mainWorker, .exit mainWorker])
      (fun _ _ _ => keepsReplies_of_test) (by decide +kernel)) ?_
  rintro s hreach ⟨hitems, hexited, hmem⟩
  have hfin : Finished s := by simp [Finished, hitems]
  exact ⟨hfin, hexited, hmem, (one_reply oneWorker).2 s hreach hfin 0 hmem⟩

/-- A message waits for its next attempt when the dispatcher stops, and nobody replies. -/
theorem stop_drops_requeued :
    ∃ s, Reach (NestMessages.next oneWorker) (· = initial) anyStep s ∧
      s.stopped = true ∧ Finished s ∧ 0 ∈ s.accepted ∧ s.replies.count 0 = 0 := by
  refine exists_reach_imp (P := fun s => s.items = [] ∧ s.stopped = true ∧ 0 ∈ s.accepted ∧
    s.replies.count 0 = 0)
    (exists_of_anyRun rfl
      ([.client syncCall 0] ++ steps 4 ++ [.pop 0, .step 0 .transient, .stop])
      (by decide +kernel)) ?_
  rintro s hreach ⟨hitems, hstopped, hmem, hcount⟩
  exact ⟨hstopped, by simp [Finished, hitems], hmem, hcount⟩

end Runs

end CubeCore.OneReply
