import CubeCore.SubscriptionRules

namespace CubeCore.DeltaChain

open SubjectSync Interleaving TransitionSystem EntitySync SubscriptionRules

variable {F V : Type}

/-- The last envelope of a subscriber is one of the open object, with this version. -/
def Linked (s : Sync F V) (r : SubscriberRef) (version : Nat) : Prop :=
  (s.states s.current).enabled = true ∧ ∃ e older, s.log r = e :: older ∧ e.origin = s.current ∧
    e.envelope.update.version = version ∧ e.envelope.kind ≠ .leave

def PackedAt (t : Ticket) (updates : List (SubjectSyncUpdate (Payload F V))) : Prop :=
  ∀ u ∈ updates, u.version = t.version ∧ u.baseVersion = t.baseVersion

def links : RowSpec F V where
  Good s r _ := Linked s r (s.states s.current).version
  Snap s o _ u := (s.states o).enabled = true ∧ o = s.current ∧ u.version = (s.states o).version
  Pack _ t updates := PackedAt t updates
  Done s t := ∀ r profile, Active s.subs r profile → Linked s r t.version

section Laws

variable {bit : F → Fin 64} {s s' : Sync F V} {r : SubscriberRef} {g o : Nat} {t : Ticket}
  {updates : List (SubjectSyncUpdate (Payload F V))}

theorem Linked.evolves (h : Linked s r version) (hev : Evolves bit s s')
    (hlog : s'.log r = s.log r) : Linked s' r version := by
  obtain ⟨hopen, e, older, hhead, horigin, hversion, hkind⟩ := h
  refine ⟨?_, e, older, hlog.trans hhead, ?_, hversion, hkind⟩
  · rwa [hev.current hopen, (hev.grows _ hopen).enabled]
  · rwa [hev.current hopen]

theorem packedAt_updates {profiles} (h : t.updates (packer bit s.content) profiles = .ok updates) :
    PackedAt t updates := by
  intro u hu
  obtain ⟨-, payload, -, heq⟩ := Ticket.pack_of_mem_updates h hu
  rw [heq]
  exact ⟨rfl, rfl⟩

theorem links_lawful : (links : RowSpec F V).Lawful bit where
  good hev hlog hgood := by
    dsimp only [links]
    rw [hev.current hgood.1, (hev.grows _ hgood.1).version]
    exact Linked.evolves hgood hev hlog
  snap hev hsnap := by
    obtain ⟨hopen, rfl, hversion⟩ := hsnap
    have hgrows := hev.grows _ hopen
    exact ⟨hgrows.enabled.trans hopen, (hev.current hopen).symm, hversion.trans hgrows.version.symm⟩
  pack _ _ _ hpack := hpack
  done hev _ _ hsubs hlog hdone r profile hr := by
    rw [hsubs] at hr
    exact (hdone r profile hr).evolves hev (congrFun hlog r)
  captured hobjects hopen := ⟨hopen, hobjects _ hopen, rfl⟩
  admitted _ hsnap := by
    obtain ⟨hopen, rfl, hversion⟩ := hsnap
    exact ⟨hopen, _, _, admitAll_self _ _, rfl, hversion, fun hkind => by cases hkind⟩
  packed _ hupdates := packedAt_updates hupdates
  delivered {s g o t updates batch} hobjects hkeys hflying _ hpack hbatch r profile hr := by
    have hopen := hflying.enabled
    obtain rfl := hobjects o hopen
    rcases admitAll_batch hkeys hbatch s.current r with ⟨sub, u, -, -, hu, hlog⟩ | ⟨hnone, -⟩
    · refine ⟨hopen, _, _, hlog, rfl, (hpack u (mem_of_byProfile hu).1).1, ?_⟩
      dsimp only
      split <;> nofun
    · exact absurd hr (hnone profile)
  committed {s g o t state updates} hobjects hflying hdone hcommit r profile hr := by
    have hopen := hflying.enabled
    obtain rfl := hobjects o hopen
    have hset : (s.setState s.current state).states (s.setState s.current state).current = state :=
      by simp only [Sync.setState, Function.update_self]
    have hcommitted := committed_commit (s.states s.current) (t.prepared updates)
    rw [hcommit] at hcommitted
    have hstate : state.enabled = true ∧ state.version = t.version := by
      cases hcommitted <;> exact ⟨hopen, rfl⟩
    obtain ⟨-, e, older, hhead, horigin, hversion, hkind⟩ := hdone r profile hr
    dsimp only [links]
    rw [Linked, hset, hstate.2]
    exact ⟨hstate.1, e, older, hhead, horigin, hversion, hkind⟩

end Laws

/-- Every delta follows an envelope of its object with its base version. -/
def Chained : List (Admitted F V) → Prop
  | [] => True
  | e :: older =>
    (e.envelope.kind = .delta →
      ∃ prev rest, older = prev :: rest ∧
        e.envelope.update.baseVersion = prev.envelope.update.version ∧
        prev.origin = e.origin ∧ prev.envelope.kind ≠ .leave) ∧
      Chained older

theorem Chained.tail (h : Chained (newer ++ older)) :
    Chained older := by
  induction newer with
  | nil => exact h
  | cons e newer ih => exact ih h.2

theorem Chained.snapshot (h : Chained (e :: older)) (hdelta : e.envelope.kind = .delta) :
    ∃ x ∈ older, x.envelope.kind = .snapshot ∧ x.origin = e.origin := by
  induction older generalizing e with
  | nil =>
    obtain ⟨prev, rest, heq, -⟩ := h.1 hdelta
    cases heq
  | cons prev older ih =>
    obtain ⟨prev', rest, heq, -, horigin, hleave⟩ := h.1 hdelta
    cases heq
    cases hkind : prev.envelope.kind with
    | snapshot => exact ⟨prev, .head _, hkind, horigin⟩
    | delta =>
      obtain ⟨x, hx, hsnapshot, hx'⟩ := ih h.2 hkind
      exact ⟨x, .tail _ hx, hsnapshot, hx'.trans horigin⟩
    | leave => exact absurd hkind hleave

section Admission

variable {g : Nat} {s : Sync F V}

theorem chained_batch (hobjects : Objects s) (hkeys : Keys s.subs) (hflying : Flying g s o t)
    (hgood : links.AllGood s) (hpack : PackedAt t updates)
    (hbatch : envelopes updates (activeSubscriptions s.subs) = .ok batch)
    (h : ∀ r, Chained (s.log r)) (r : SubscriberRef) : Chained ((s.admitAll o batch).log r) := by
  obtain rfl := hobjects o hflying.enabled
  rcases admitAll_batch hkeys hbatch s.current r with
    ⟨sub, u, hlookup, hactive, hu, hlog⟩ | ⟨-, hlog⟩
  · rw [hlog]
    refine ⟨fun _ => ?_, h r⟩
    obtain ⟨-, e, older, hhead, horigin, hversion, hkind⟩ :=
      hgood r sub.profile ⟨sub, hlookup, hactive, rfl⟩
    refine ⟨e, older, hhead, ?_, horigin, hkind⟩
    have hbase := (hpack u (mem_of_byProfile hu).1).2
    rwa [hversion, hflying.base]
  · rw [hlog]
    exact h r

theorem chained_single (hkind : e.kind ≠ .delta) (h : ∀ r, Chained (s.log r)) (r : SubscriberRef) :
    Chained ((s.admitAll o [e]).log r) := by
  rw [admitAll_single]
  split
  · exact ⟨fun hdelta => absurd hdelta hkind, h r⟩
  · exact h r

end Admission

section Runs

variable [DecidableEq F] {bit : F → Fin 64} {g : Nat} {s s' : Sync F V} {pc pc' : PC F V}
  {a : Act F V}

theorem chained_step (hsound : Sound s) (hknown : Known g s pc) (hfollows : links.Follows s pc)
    (h : ∀ r, Chained (s.log r)) (hstep : Step bit g s pc a s' pc') (r : SubscriberRef) :
    Chained (s'.log r) := by
  cases hstep with
  | outside | released => exact h r
  | event hevent => cases hevent <;> exact h r
  | flushes hflush =>
    cases hflush with
    | admitted =>
      exact chained_batch hsound.objects hsound.keys (hknown.custody.flight _ _ rfl)
        (hfollows.good rfl rfl) hfollows.extra hknown.rows.2 h r
    | _ => exact h r
  | subscribes hsubscribe =>
    cases hsubscribe with
    | admitted => exact chained_single (fun hkind => by cases hkind) h r
    | _ => exact h r
  | unsubscribes hunsubscribe =>
    cases hunsubscribe with
    | admitted => exact chained_single (fun hkind => by cases hkind) h r
    | _ => exact h r

theorem chained_of_reach {sink : Bool} {s : Threads (Sync F V) (PC F V)}
    (h : Reach (next bit) (· = initial subject sink content) calm s) (r : SubscriberRef) :
    Chained (s.shared.log r) := by
  refine @Reach.invariant_of _ _ _ _ _ _ (fun s => ∀ r, Chained (s.shared.log r))
    (fun s hreach => follows_of_reach links_lawful hreach) ?_ ?_ s h r
  · rintro s rfl r
    trivial
  rintro s ⟨g, a⟩ s' hbase hinv - hnext r
  obtain ⟨e, pc', heq, rfl⟩ := next_eq_some hnext
  obtain ⟨hknown, hfollows⟩ := hbase.knows g
  exact chained_step hbase.shared.1 hknown hfollows hinv (step_of_eq heq) r

/-- In a run whose closes are calm, every delta is based on the envelope before it and follows a
snapshot. -/
theorem delta_chain {subject : Subject} {sink : Bool} {content : SyncProfile → F → V}
    {s : Threads (Sync F V) (PC F V)}
    (h : Reach (next bit) (· = initial subject sink content) calm s) (r : SubscriberRef)
    {newer older : List (Admitted F V)} {e : Admitted F V}
    (hlog : s.shared.log r = newer ++ e :: older) (hdelta : e.envelope.kind = .delta) :
    (∃ prev rest, older = prev :: rest ∧
        e.envelope.update.baseVersion = prev.envelope.update.version) ∧
      ∃ x ∈ older, x.envelope.kind = .snapshot ∧ x.origin = e.origin := by
  have hchained := chained_of_reach h r
  rw [hlog] at hchained
  have htail := hchained.tail
  obtain ⟨prev, rest, hprev, hbase, -⟩ := htail.1 hdelta
  exact ⟨⟨prev, rest, hprev, hbase⟩, htail.snapshot hdelta⟩

end Runs

def calmTest (s : Threads (Sync F V) (PC F V)) : Nat × Act F V → Bool
  | (_, .close) =>
    s.shared.subs.entries.isEmpty && s.shared.op = none &&
      (s.shared.states s.shared.current).inflightToken = 0
  | _ => true

theorem calm_of_test (h : calmTest s l = true) : calm s l := by
  obtain ⟨g, a⟩ := l
  cases a with
  | close =>
    simp only [calmTest, Bool.and_eq_true, decide_eq_true_eq, List.isEmpty_iff] at h
    exact ⟨h.1.1, h.1.2, h.2⟩
  | _ => trivial

/-- The objects, kinds, base versions and versions of a log. -/
def trail (log : List (Admitted F V)) : List (Nat × EnvelopeKind × Nat × Nat) :=
  log.map fun e =>
    (e.origin, e.envelope.kind, e.envelope.update.baseVersion, e.envelope.update.version)

def subscribed (o : Nat) : List (Nat × Act Unit Nat) :=
  (0, .subscribe o ⟨.player, 1, 0, ""⟩ ⟨"", 0, 0⟩) :: List.replicate 8 (0, .run)

def flushed (o : Nat) : List (Nat × Act Unit Nat) :=
  (0, .change () fun _ => 1) :: (0, .flush o) :: List.replicate 9 (0, .run)

theorem delta_chain_reload :
    ∃ s : Threads (Sync Unit Nat) (PC Unit Nat),
      Reach (EntitySync.next fun _ => 0) (· = initial ⟨1, "", 0⟩ true fun _ _ => 0) calm s ∧
        trail (s.shared.log ⟨.player, 1, 0, ""⟩) =
          [(1, .delta, 0, 1), (1, .snapshot, 0, 0), (0, .leave, 1, 1), (0, .delta, 0, 1),
            (0, .snapshot, 0, 0)] ∧
        ∃ e older, s.shared.log ⟨.player, 1, 0, ""⟩ = [] ++ e :: older ∧
          (∃ prev rest, older = prev :: rest ∧
            e.envelope.update.baseVersion = prev.envelope.update.version) ∧
          ∃ x ∈ older, x.envelope.kind = .snapshot ∧ x.origin = e.origin := by
  obtain ⟨s, hreach, htrail⟩ : ∃ s : Threads (Sync Unit Nat) (PC Unit Nat),
      Reach (EntitySync.next fun _ => 0) (· = initial ⟨1, "", 0⟩ true fun _ _ => 0) calm s ∧
        trail (s.shared.log ⟨.player, 1, 0, ""⟩) =
          [(1, .delta, 0, 1), (1, .snapshot, 0, 0), (0, .leave, 1, 1), (0, .delta, 0, 1),
            (0, .snapshot, 0, 0)] :=
    exists_of_run (by rfl) calmTest
      (subscribed 0 ++ flushed 0 ++ [(0, .unsubscribe ⟨.player, 1, 0, ""⟩)] ++
        List.replicate 5 (0, .run) ++ [(0, .close), (0, .load fun _ _ => 0)] ++ subscribed 1 ++
        flushed 1)
      (fun _ _ _ => calm_of_test) (by decide +kernel)
  obtain ⟨e, older, hlog, he, -⟩ := List.map_eq_cons_iff.mp htrail
  have hdelta : e.envelope.kind = .delta := (Prod.mk.inj (Prod.mk.inj he).2).1
  have hsplit : s.shared.log ⟨.player, 1, 0, ""⟩ = [] ++ e :: older := hlog
  exact ⟨s, hreach, htrail, e, older, hsplit, delta_chain hreach _ hsplit hdelta⟩

/-- A subscriber stays across a reload: it gets no snapshot of the new state, and an update of the
old one. -/
theorem reload_breaks_chain :
    (∃ s : Threads (Sync Unit Nat) (PC Unit Nat),
      Reach (EntitySync.next fun _ => 0) (· = initial ⟨1, "", 0⟩ true fun _ _ => 0) anyStep s ∧
        trail (s.shared.log ⟨.player, 1, 0, ""⟩) =
          [(1, .delta, 0, 1), (0, .delta, 0, 1), (0, .snapshot, 0, 0)]) ∧
      ∃ s : Threads (Sync Unit Nat) (PC Unit Nat),
        Reach (EntitySync.next fun _ => 0) (· = initial ⟨1, "", 0⟩ true fun _ _ => 0) anyStep s ∧
          trail (s.shared.log ⟨.player, 1, 0, ""⟩) =
            [(0, .delta, 0, 1), (1, .delta, 0, 1), (1, .snapshot, 0, 0)] := by
  constructor
  · exact exists_of_anyRun rfl
      (subscribed 0 ++ flushed 0 ++ [(0, .close), (0, .load fun _ _ => 0)] ++
        (subscribed 1).take 4 ++ flushed 1)
      (by decide +kernel)
  exact exists_of_anyRun rfl
    ([(1, .change () fun _ => 1), (1, .flush 0), (1, .run), (1, .run), (1, .run), (0, .close),
      (0, .load fun _ _ => 0)] ++ subscribed 1 ++ flushed 1 ++ List.replicate 3 (1, .run))
    (by decide +kernel)

end CubeCore.DeltaChain
