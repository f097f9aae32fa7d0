import NeoTavern.Generation.History
import NeoTavern.Generation.OneMessage
import NeoTavern.Generation.Session
import NeoTavern.Kernel.Moves
import NeoTavern.Lib.Numbered

open Wire Storage Kernel

-- The events of a run with their sequences.
def Storage.Db.entries (db : Db) (runId : String) : List (Int × GenerationEvent) :=
  (db.eventsOf runId).map fun e => (e.sequence, e.payload)

-- The run is not there, or it has no events and gets none any more.
def Gone (db : Db) (runId : String) : Prop :=
  ∀ r, db.runs.get? runId = some r → (db.runLog r).Purged

-- The run is not there, or it has come to its end and gets no more events.
def Stopped (db : Db) (runId : String) : Prop :=
  ∀ r, db.runs.get? runId = some r → isTerminal r.status

theorem RunLog.Step.stopped (h : Step a l l') (ht : isTerminal l.status) :
    isTerminal l'.status ∧ (l'.entries = l.entries ∨ l'.entries = []) := by
  cases h
  case cancel hs            => exact absurd ht <| not_isTerminal_of_isCancellable hs
  case advance hs           => exact absurd ht hs
  case delta hs _           => exact absurd ht <| not_isTerminal_of_isCancellable hs
  case deltaCheckpoint hs _ => exact absurd ht <| not_isTerminal_of_isCancellable hs
  case finish hs            => exact absurd ht hs
  case interrupt hs         => exact absurd ht hs
  case discard              => exact ⟨ht, .inr rfl⟩
  all_goals exact ⟨ht, .inl rfl⟩

theorem RunLog.Step.grows (h : Step a l l') : l'.Purged ∨ l.entries <+: l'.entries := by
  cases h
  case discard hs => exact .inl ⟨rfl, rfl, hs⟩
  case deltaCheckpoint =>
    refine .inr ?_
    simp only [appendCheckpoint, appendDelta, append, touch, List.append_assoc]
    exact List.prefix_append ..
  case delta  => exact .inr <| List.prefix_append ..
  case finish => exact .inr <| List.prefix_append ..
  all_goals exact .inr <| List.prefix_refl _

section Legal

variable {d d' : Db} {l : Label} {i : String}

theorem Storage.Db.runLog_entries (h : d.runs.get? i = some r) :
    (d.runLog r).entries = d.entries i := by
  obtain rfl := Table.get?_key_eq h
  rfl

theorem Gone.entries (h : Gone d i) (hc : d.Consistent) : d.entries i = [] := by
  cases hr : d.runs.get? i
  case none => rw [Db.entries, hc.eventsOf_nil hr, List.map_nil]
  case some r => rw [← Db.runLog_entries hr, (h r hr).entries]

theorem Gone.legal (h : Gone d i) (hl : Legal d l d') (hs : l ≠ .start i) : Gone d' i := by
  intro r' hr'
  obtain rfl := Table.get?_key_eq hr'
  cases hl.effect.origin hr'
  case start he _ _ => exact absurd he hs
  case same hr hlog => exact hlog ▸ h r' hr
  case step act r hst _ =>
    have hp := h r (hst.id ▸ hst.row)
    exact hst.step.preserves_purged hp

-- A commit that does not start the run appends to its events or does away with them.
theorem Storage.Legal.grows (hl : Legal d l d') (hs : l ≠ .start i) :
    Gone d' i ∨ d.entries i <+: d'.entries i := by
  cases hr' : d'.runs.get? i
  case none => exact .inl fun r hr => by simp [hr'] at hr
  case some r' =>
    obtain rfl := Table.get?_key_eq hr'
    cases hl.effect.origin hr'
    case start he _ _ => exact absurd he hs
    case same hr hlog =>
      rw [← Db.runLog_entries hr', hlog, Db.runLog_entries hr]
      exact .inr <| List.prefix_refl _
    case step act r hst _ =>
      have hr := hst.id ▸ hst.row
      rcases hst.step.grows with hp | hp
      · refine .inl fun r'' hr'' => ?_
        cases hr'.symm.trans hr''
        exact hp
      · rw [Db.runLog_entries hr, Db.runLog_entries hr'] at hp
        exact .inr hp

theorem Stopped.legal (h : Stopped d i) (hl : Legal d l d') (hc : d'.Consistent) (hs : l ≠ .start i) :
    Stopped d' i ∧ ∀ x ∈ d'.entries i, x ∈ d.entries i := by
  cases hr' : d'.runs.get? i
  case none =>
    rw [Db.entries, hc.eventsOf_nil hr']
    exact ⟨fun r hr => by simp [hr'] at hr, by simp⟩
  case some r' =>
    obtain rfl := Table.get?_key_eq hr'
    rw [← Db.runLog_entries hr']
    cases hl.effect.origin hr'
    case start he _ _ => exact absurd he hs
    case same hr hlog =>
      rw [hlog, Db.runLog_entries hr]
      refine ⟨fun r'' hr'' => ?_, fun _ => id⟩
      exact h r'' <| hr.trans <| hr'.symm.trans hr''
    case step act r hst _ =>
      have hr := hst.id ▸ hst.row
      obtain ⟨ht, he⟩ := hst.step.stopped (h r hr)
      refine ⟨fun r'' hr'' => ?_, fun x hx => ?_⟩
      · cases hr'.symm.trans hr''
        exact ht
      · rcases he with he | he
        · rwa [he, Db.runLog_entries hr] at hx
        · simp [he] at hx

end Legal

section Reachable

variable {b : Db} {c : Commit Label Db} {cs ds : List (Commit Label Db)} {i : String}

theorem Reachable.suffix (h : Reachable ⟨b, ds ++ cs⟩) : Reachable ⟨b, cs⟩ := by
  have := h.crash ds.length
  rwa [Journal.crash, List.drop_left] at this

theorem Reachable.legal (h : Reachable ⟨b, c :: cs⟩) :
    Legal (Journal.state ⟨b, cs⟩) c.label c.state := by
  have ⟨d, _, _, hg, _⟩ := h.grows
  have hb : b = d := hg.base_eq
  subst hb
  exact (hg.step (List.nil_append _).symm List.nil_suffix).legal

theorem Reachable.consistent (h : Reachable j) : j.state.Consistent := by
  have ⟨_, _, _, _, hc⟩ := h.grows
  exact hc

-- The events of a run between two points of a history.
theorem Reachable.entries_grow (h : Reachable ⟨b, ds ++ cs⟩)
    (hs : ∀ c ∈ ds, c.label ≠ .start i) :
    Gone (Journal.state ⟨b, ds ++ cs⟩) i ∨
      (Journal.state ⟨b, cs⟩).entries i <+: (Journal.state ⟨b, ds ++ cs⟩).entries i := by
  induction ds
  case nil => exact .inr <| List.prefix_refl _
  case cons c ds ih =>
    have ht : Reachable ⟨b, [c] ++ (ds ++ cs)⟩ := h
    have hc := hs c List.mem_cons_self
    rcases ih ht.suffix fun c hm => hs c <| List.mem_cons_of_mem _ hm with hg | hp
    · exact .inl <| hg.legal h.legal hc
    · rcases h.legal.grows hc with hg | hp'
      · exact .inl hg
      · exact .inr <| hp.trans hp'

theorem Reachable.gone (h : Reachable ⟨b, ds ++ cs⟩) (hs : ∀ c ∈ ds, c.label ≠ .start i)
    (hg : Gone (Journal.state ⟨b, cs⟩) i) : Gone (Journal.state ⟨b, ds ++ cs⟩) i := by
  induction ds
  case nil => exact hg
  case cons c ds ih =>
    have ht : Reachable ⟨b, [c] ++ (ds ++ cs)⟩ := h
    have hg := ih ht.suffix fun c hm => hs c <| List.mem_cons_of_mem _ hm
    exact hg.legal h.legal <| hs c List.mem_cons_self

-- After its end a run gets no events.
theorem Reachable.stopped (h : Reachable ⟨b, ds ++ cs⟩) (hs : ∀ c ∈ ds, c.label ≠ .start i)
    (ht : Stopped (Journal.state ⟨b, cs⟩) i) : Stopped (Journal.state ⟨b, ds ++ cs⟩) i ∧
      ∀ x ∈ (Journal.state ⟨b, ds ++ cs⟩).entries i, x ∈ (Journal.state ⟨b, cs⟩).entries i := by
  induction ds
  case nil => exact ⟨ht, fun _ => id⟩
  case cons c ds ih =>
    have hp : Reachable ⟨b, [c] ++ (ds ++ cs)⟩ := h
    have ⟨ht, he⟩ := ih hp.suffix fun c hm => hs c <| List.mem_cons_of_mem _ hm
    have ⟨ht, he'⟩ := ht.legal h.legal h.consistent <| hs c List.mem_cons_self
    exact ⟨ht, fun x hx => he x <| he' x hx⟩

theorem Reachable.numbered (h : Reachable j) (i : String) : Numbered Prod.fst (j.state.entries i) := by
  cases hr : j.state.runs.get? i
  case none =>
    rw [Db.entries, h.consistent.eventsOf_nil hr]
    exact .nil
  case some r =>
    have hl := h.logSound i r hr
    rw [← Db.runLog_entries hr]
    unfold RunLog.Inv at hl
    split at hl
    · rw [hl.entries]
      exact .nil
    · exact hl.sequences

-- A terminal event is the last of its run.
theorem Reachable.ends (h : Reachable j) (he : j.state.entries i = es ++ (s, e) :: fs)
    (ht : isTerminalEvent e.type) : fs = [] := by
  cases hr : j.state.runs.get? i
  case none => simp [Db.entries, h.consistent.eventsOf_nil hr] at he
  case some r =>
    have hl := h.logSound i r hr
    rw [← Db.runLog_entries hr] at he
    unfold RunLog.Inv at hl
    split at hl
    · simp [hl.entries] at he
    · exact hl.ends es fs s e he <| terminalStatus_isSome e ▸ ht

theorem Reachable.stopped_of_terminal (h : Reachable j) (he : (s, e) ∈ j.state.entries i)
    (ht : isTerminalEvent e.type) : Stopped j.state i := by
  intro r hr
  have hl := h.logSound i r hr
  rw [← Db.runLog_entries hr] at he
  unfold RunLog.Inv at hl
  split at hl
  · simp [hl.entries] at he
  · have ⟨s, hs⟩ := Option.isSome_iff_exists.mp <| terminalStatus_isSome e ▸ ht
    have ⟨hs, ht, _⟩ := (hl.terminal s).mp ⟨_, he, hs⟩
    rw [← hs] at ht
    exact ht

end Reachable

open Wire Storage Kernel Paging Proc
open Journal (Grows)

section Growth

variable {d d' d'' : Db} {l : Label}

-- The commits that only append: no character and no log of a run goes.
def Kernel.Label.appends : Label → Bool
  | .drop _         => false
  | .run _ .discard => false
  | _               => true

-- The messages of `d` stay in `d'`, and those that come stand behind the others of their chat.
structure Appends (d d' : Db) : Prop where
  chats    : d'.chats = d.chats
  messages : ∃ ms, d'.messages.rows = d.messages.rows ++ ms ∧
    ∀ m ∈ ms, ∀ m' ∈ d.messages, m'.chatId = m.chatId → m'.sequence < m.sequence

theorem Appends.of_eq (hc : d'.chats = d.chats) (hm : d'.messages = d.messages) : Appends d d' where
  chats    := hc
  messages := ⟨[], by rw [hm, List.append_nil], nofun⟩

theorem Appends.trans (h : Appends d d') (h' : Appends d' d'') : Appends d d'' where
  chats    := h'.chats.trans h.chats
  messages := by
    have ⟨ms, hms, hlt⟩    := h.messages
    have ⟨ms', hms', hlt'⟩ := h'.messages
    refine ⟨ms ++ ms', by rw [hms', hms, List.append_assoc], fun m hm m' hm' hchat => ?_⟩
    cases List.mem_append.mp hm
    case inl hm => exact hlt m hm m' hm' hchat
    case inr hm =>
      refine hlt' m hm m' ?_ hchat
      rw [Table.mem_def, hms]
      exact List.mem_append_left _ hm'

theorem Posts.appends (h : Posts d d' r m) : Appends d d' where
  chats    := h.chats
  messages := by
    refine ⟨[m], h.messages, fun m₁ hm₁ m' hm' hchat => ?_⟩
    obtain rfl := List.mem_singleton.mp hm₁
    rw [h.sequence, ← hchat]
    exact lt_nextMessageSequence hm'

-- A character without chats takes nothing with it.
theorem dropCharacter_appends (h : (d.dropCharacter c).chats = d.chats) :
    Appends d (d.dropCharacter c) := by
  apply Appends.of_eq h
  have hnone : d.chats.rows.filter (·.characterId = c) = [] := by
    apply List.filter_eq_nil_iff.mpr
    intro chat hchat hc
    have hmem : chat ∈ (d.dropCharacter c).chats := h ▸ hchat
    have hne := (Table.mem_delete.mp hmem).right
    rw [hc] at hne
    cases hne
  apply Table.ext
  have howned : ((d.chats.rows.filter (·.characterId = c)).map (·.id)) = [] := by
    rw [hnone, List.map_nil]
  simp [Db.dropCharacter, Table.delete, howned]

theorem MessageStep.appends (h : MessageStep d l d') (hl : l.appends) : Appends d d' := by
  have hchats : d'.chats = d.chats := h.left.legal.chats <| by
    rintro c rfl
    cases hl
  cases h.right
  case starts hmessages hchats => exact .of_eq hchats hmessages
  case posting hposting =>
    cases hposting
    case silent h      => exact .of_eq h.chats h.messages
    case keeps h _ _   => exact h.appends
    case completes h _ => exact h.appends
    case drops h       =>
      subst h
      exact dropCharacter_appends hchats

theorem RunLog.Step.entries_append {g g' : RunLog} (h : RunLog.Step a g g') (ha : a ≠ .discard) :
    g.entries <+: g'.entries := by
  cases h
  case discard => exact absurd rfl ha
  case deltaCheckpoint =>
    simp only [appendCheckpoint, appendDelta, append, touch, List.append_assoc]
    exact List.prefix_append ..
  case delta  => exact List.prefix_append ..
  case finish => exact List.prefix_append ..
  all_goals exact List.prefix_rfl

-- The run `i` and its events stay, and events that come stand behind the others.
structure EventsAppend (i : String) (d d' : Db) : Prop where
  run     : (d'.runs.get? i).isSome
  entries : d.entries i <+: d'.entries i

theorem Storage.Db.Same.entries_append (h : d.Same d' i) (hi : (d.runs.get? i).isSome) :
    EventsAppend i d d' where
  run     := h.row ▸ hi
  entries := by
    rw [Db.entries, Db.entries, h.events]

theorem Stepped.entries_append (h : Stepped act d d' r r') (ha : act ≠ .discard) :
    EventsAppend r.runId d d' where
  run     := h.row' ▸ rfl
  entries := by
    have hentries := h.step.entries_append ha
    rwa [Db.runLog_entries h.row, Db.runLog_entries (h.id ▸ h.row'), h.id] at hentries

theorem Storage.Legal.events_append (h : Legal d l d') (hl : l.appends)
    (hi : (d.runs.get? i).isSome) : EventsAppend i d d' := by
  cases h.effect
  case start r hnew _ _ hothers =>
    apply (hothers i _).entries_append hi
    rintro rfl
    rw [hnew] at hi
    cases hi
  case run act r r' hstep hothers =>
    by_cases hr : i = r.runId
    case neg => exact (hothers i hr).entries_append hi
    case pos =>
      rw [hr]
      apply hstep.entries_append
      rintro rfl
      cases hl
  case recover hall =>
    cases hall i
    case inl h => exact h.entries_append hi
    case inr h =>
      obtain ⟨r, r', rfl, hstep⟩ := h
      exact hstep.entries_append nofun
  case drop          => cases hl
  case product hall  => exact (hall i).entries_append hi
  case idle hall     => exact (hall i).entries_append hi

end Growth

section Readings

variable {j k k' : Journal Label Db}

-- An earlier point of the history `j`.
structure Earlier (k j : Journal Label Db) : Prop where
  base    : k.base = j.base
  commits : k.commits <:+ j.commits

-- Between the two points only appending commits were made.
structure Extends (k k' : Journal Label Db) : Prop where
  base    : k'.base = k.base
  commits : ∃ cs, k'.commits = cs ++ k.commits ∧ ∀ c ∈ cs, c.label.appends

theorem Extends.refl (k : Journal Label Db) : Extends k k :=
  ⟨rfl, [], rfl, nofun⟩

theorem Earlier.reachable (h : Earlier k j) (hj : Reachable j) : Reachable k := by
  obtain ⟨base, commits⟩   := k
  obtain ⟨base', commits'⟩ := j
  obtain rfl : base = base' := h.base
  obtain ⟨cs, rfl⟩ := h.commits
  exact hj.suffix

-- A relation that the appending commits respect.
theorem Extends.relates {R : Db → Db → Prop} (h : Extends k k') (hk : Reachable k')
    (refl : R k.state k.state) (trans : ∀ {d d' d''}, R d d' → R d' d'' → R d d'')
    (step : ∀ {d l d'}, MessageStep d l d' → l.appends → R d d') : R k.state k'.state := by
  obtain ⟨base, commits⟩   := k
  obtain ⟨base', commits'⟩ := k'
  obtain rfl : base' = base := h.base
  obtain ⟨cs, hcs, happends⟩ := h.commits
  obtain rfl : commits' = cs ++ commits := hcs
  clear h
  induction cs
  case nil => exact refl
  case cons c cs ih =>
    have ⟨hc, hcs⟩ := List.forall_mem_cons.mp happends
    have hk' : Reachable ⟨base', [c] ++ (cs ++ commits)⟩ := hk
    have hprev := hk'.suffix
    have hstep : MessageStep (Journal.state ⟨base', cs ++ commits⟩) c.label c.state :=
      hk.step_at (List.nil_append _).symm
    exact trans (ih hcs hprev) <| step hstep hc

theorem Extends.appends (h : Extends k k') (hk : Reachable k') : Appends k.state k'.state :=
  h.relates hk (.of_eq rfl rfl) .trans MessageStep.appends

theorem Extends.events_append (h : Extends k k') (hk : Reachable k')
    (hi : (k.state.runs.get? i).isSome) : EventsAppend i k.state k'.state := by
  have hrel := h.relates (R := fun d d' => (d.runs.get? i).isSome → EventsAppend i d d') hk
    (fun hi => ⟨hi, List.prefix_rfl⟩)
    (fun h h' hi => ⟨(h' (h hi).run).run, (h hi).entries.trans (h' (h hi).run).entries⟩)
    (fun hs hl => hs.left.legal.events_append hl)
  exact hrel hi

end Readings

namespace Kernel.Moves

variable {w : World}

-- What the kernel commits; a run is started under an identifier that the wire takes.
def NamingStep (d : Db) (l : Label) (d' : Db) : Prop :=
  KernelStep False d l d' ∧ ∀ i, l = .start i → isUuid i

theorem NamingStep.of_exec {d d' : Db} (h : ExecStep False d l d') : NamingStep d l d' := by
  refine ⟨h.toKernelStep, ?_⟩
  rintro i rfl
  exact absurd h.exec Bool.false_ne_true

theorem naming_streamStart (hc : w.db.Consistent) : Moves NamingStep (Kernel.streamStart op leaseOwner)
    (fun runId t => ∃ run, Started t.db runId run) w := by
  refine newId.bind fun runId t₁ _ ⟨hj₁, hi⟩ => ?_
  refine (streamSetup (World.db_eq hj₁ ▸ hc)).bind fun setup t₂ _ ⟨hj₂, hu⟩ => ?_
  refine now.bind fun createdAt t₃ _ hj₃ => ?_
  refine leaseExpires.bind fun lease t₄ _ hj₄ => ?_
  have hj := hj₄.trans <| hj₃.trans <| hj₂.trans hj₁
  have hs := insertRun_spec (r := newRun runId setup leaseOwner lease createdAt)
    "generation stream: insert run" (World.db_eq hj ▸ hc) rfl hu
  refine (transaction (Q := fun _ d => ∃ run, Started d runId run) ?_).bind fun _ _ _ h => pure h
  refine wp_mono hs (fun _ d ⟨hl, hr, hlog, hchat⟩ => ⟨⟨⟨hl, False.elim⟩, ?_⟩, ?_⟩) fun _ _ h => h
  · rintro _ ⟨⟩
    exact hi
  · exact ⟨_, hr, hlog, hi, hchat⟩

theorem naming_recover : Moves NamingStep Kernel.recover (fun _ _ => True) w := by
  refine now.bind fun updatedAt t _ _ => ?_
  refine (transaction (Q := fun _ _ => True) ?_).bind fun _ _ _ _ => pure trivial
  refine wp_mono recoverTx_spec (fun _ d h => ⟨⟨⟨h ▸ recover_legal .., False.elim⟩, ?_⟩, trivial⟩)
    fun _ _ h => h
  rintro _ ⟨⟩

theorem naming_serveStream (hc : w.db.Consistent) :
    Moves NamingStep (Kernel.serveStream leaseOwner registry op) (fun _ _ => True) w := by
  unfold Kernel.serveStream
  refine bind (Q := fun r t => ∀ streamId, r = .ok streamId → Live t.db streamId) ?_ fun r t _ h => ?_
  · refine ((naming_streamStart hc).post fun _ _ _ ⟨run, h⟩ => ?_).attempt fun _ _ _ => by rintro _ ⟨⟩
    rintro _ ⟨⟩
    exact h.live
  · cases r
    case error e     => exact pure trivial
    case ok streamId =>
      have hl := h streamId rfl
      refine gets.bind fun runTimeout u _ ⟨hu, _⟩ => hu ▸ ?_
      refine bind (Q := fun _ _ => True) (attempt ?_ fun _ _ _ => trivial) fun _ _ _ _ => pure trivial
      exact Moves.mono (S := ExecStep False)
        (executeStream (fun _ => drainPending) False.elim hl False.elim False.elim)
        (fun _ _ _ => .of_exec) fun _ _ _ _ => trivial

theorem naming_serveUnary :
    Moves NamingStep (Proc.attempt <| Kernel.handleUnary op cancelled) (fun _ _ => True) w := by
  refine attempt ?_ fun _ _ _ => trivial
  exact handleUnary.mono (fun _ _ _ h => .of_exec h.unary.quiet.toExecStep) fun _ _ _ _ => trivial

theorem naming_serveCommand (hc : w.db.Consistent) :
    Moves NamingStep (Kernel.serveCommand leaseOwner registry c) (fun _ _ => True) w := by
  cases c
  case unary          => exact naming_serveUnary.bind fun _ _ _ _ => pure trivial
  case stream op      => exact naming_serveStream hc
  case setRunTimeout  => exact (modify rfl rfl).post fun _ _ _ _ => trivial
  case shutdown       => exact (modify rfl rfl).post fun _ _ _ _ => trivial

theorem naming_serve (hc : w.db.Consistent) :
    Moves NamingStep (Kernel.serve leaseOwner registry) (fun _ _ => True) w := by
  refine gets.bind fun stop t _ ⟨ht, _⟩ => ?_
  subst ht
  split
  case isTrue  => exact pure trivial
  case isFalse =>
    refine nextCommand.bind fun c u _ hj => ?_
    cases c
    case none   => exact pure trivial
    case some c => exact naming_serveCommand (World.db_eq hj ▸ hc)

theorem naming_serveMany (hc : w.db.Consistent) :
    Moves NamingStep (Kernel.serveMany leaseOwner registry n) (fun _ _ => True) w := by
  induction n generalizing w
  case zero      => exact pure trivial
  case succ n ih =>
    refine (naming_serve hc).bind fun _ t hg _ => ih ?_
    exact (hg.grows.mono fun _ _ _ h => h.left).consistent hc

theorem naming_writerMain (hc : w.db.Consistent) :
    Moves NamingStep (Kernel.writerMain leaseOwner registry n) (fun _ _ => True) w := by
  refine (naming_recover.attempt (Q := fun _ _ => True) fun _ _ _ => trivial).bind fun _ t hg _ => ?_
  exact naming_serveMany <| (hg.grows.mono fun _ _ _ h => h.left).consistent hc

end Kernel.Moves

section Names

variable {j : Journal Label Db}

-- The runs have identifiers that the wire takes.
def RunsNamed (d : Db) : Prop :=
  ∀ i, (d.runs.get? i).isSome → isUuid i

theorem RunsNamed.step {d d' : Db} (hd : RunsNamed d) (h : Moves.NamingStep d l d') : RunsNamed d' := by
  intro i hi
  have ⟨r, hr⟩ := Option.isSome_iff_exists.mp hi
  obtain rfl := Table.get?_key_eq hr
  cases h.left.legal.effect.origin hr
  case start hl _ _     => exact h.right _ hl
  case same hr' _       => exact hd _ <| Option.isSome_iff_exists.mpr ⟨_, hr'⟩
  case step act r hst _ =>
    rw [hst.id]
    exact hd _ <| Option.isSome_iff_exists.mpr ⟨_, hst.row⟩

theorem Reachable.runs_named (h : Reachable j) : RunsNamed j.state := by
  have hgrows : Grows Moves.NamingStep ⟨j.base, []⟩ j := by
    induction h
    case fresh        => exact .refl
    case crash n ih   => exact ih.crash n
    case session w hw leaseOwner registry turns ih =>
      have hmain : Moves Moves.NamingStep (Kernel.writerMain leaseOwner registry turns) (fun _ _ => True) w :=
        Moves.naming_writerMain hw.consistent
      have hlater := hmain.later.grows
      rw [hlater.base_eq]
      exact ih.trans hlater
  apply hgrows.preserves_state (fun _ _ _ => RunsNamed.step)
  intro i hi
  rw [Journal.state, h.runs_empty] at hi
  cases hi

end Names
