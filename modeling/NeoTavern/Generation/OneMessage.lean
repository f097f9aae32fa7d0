import NeoTavern.Generation.Posting

open Wire Storage Kernel
open Journal (Grows)

section Sequences

theorem le_foldl_max (xs : List Int) (a : Int) : a ≤ xs.foldl max a ∧ ∀ x ∈ xs, x ≤ xs.foldl max a := by
  induction xs generalizing a
  case nil          => exact ⟨Int.le_refl a, nofun⟩
  case cons x xs ih =>
    have ⟨ha, hxs⟩ := ih (max a x)
    refine ⟨Int.le_trans (Int.le_max_left a x) ha, List.forall_mem_cons.mpr ⟨?_, hxs⟩⟩
    exact Int.le_trans (Int.le_max_right a x) ha

theorem lt_nextMessageSequence {d : Db} (hm : m ∈ d.messages) : m.sequence < d.nextMessageSequence m.chatId := by
  have hmem : m ∈ d.messages.rows.filter (·.chatId = m.chatId) :=
    List.mem_filter.mpr ⟨hm, decide_eq_true rfl⟩
  have hle := (le_foldl_max ((d.messages.rows.filter (·.chatId = m.chatId)).map (·.sequence)) (-1)).right
    m.sequence (List.mem_map_of_mem hmem)
  rw [Db.nextMessageSequence]
  omega

end Sequences

section Steps

variable {d d' : Db} {l : Label}

-- What the kernel commits, with what it does to the messages.
def MessageStep (d : Db) (l : Label) (d' : Db) : Prop :=
  KernelStep False d l d' ∧ PostingStep d l d'

-- The messages of the runs, and what the runs know of them.
structure Linked (d : Db) : Prop where
  run     : ∀ m ∈ d.messages, ∀ i, m.generationRunId = some i → d.link i = some (m.chatId, some m.id)
  message : ∀ i c k, d.link i = some (c, some k) → ∃ m ∈ d.messages, m.id = k ∧ m.generationRunId = some i
  ended   : ∀ i r, d.runs.get? i = some r → r.messageId.isSome → isTerminal r.status

theorem RunLog.Step.ended {g g' : RunLog} (h : RunLog.Step a g g') (hl : isTerminal g.status) :
    isTerminal g'.status := by
  cases h
  case cancel hs            => exact absurd hl <| not_isTerminal_of_isCancellable hs
  case advance hs           => exact absurd hl hs
  case delta hs _           => exact absurd hl <| not_isTerminal_of_isCancellable hs
  case deltaCheckpoint hs _ => exact absurd hl <| not_isTerminal_of_isCancellable hs
  case finish hs            => exact absurd hl hs
  case release hs           => exact absurd hl hs
  case keep                 => exact hl
  case discard              => exact hl
  case interrupt hs         => exact absurd hl hs

-- The acts after which a run has ended.
theorem RunLog.Step.ends {g g' : RunLog} (h : RunLog.Step a g g') (ha : a.insertsMessage) :
    isTerminal g'.status := by
  cases h
  case finish e s he _ => exact (terminalStatus_isTerminal he).left
  case keep hs         => exact isTerminal_of_isRecoverable hs
  all_goals exact absurd ha Bool.false_ne_true

theorem RunLog.Step.finish_live {g g' : RunLog} (h : RunLog.Step (.finish s) g g') : ¬isTerminal g.status := by
  cases h
  case finish hs => exact hs

theorem Legal.live (h : Legal d (.run i (.finish s)) d') (hr : d.runs.get? i = some r) :
    ¬isTerminal r.status := by
  have heffect := h.effect
  generalize hl : Label.run i (.finish s) = l at heffect
  cases heffect
  case run act r₀ r' hstep _ =>
    obtain ⟨rfl, rfl⟩ := Label.run.inj hl
    obtain rfl := Option.some.inj <| hr.symm.trans hstep.row
    exact hstep.step.finish_live
  all_goals cases hl

theorem mem_of_rows {t t' : Table String MessageRow (·.id)} (h : t'.rows = t.rows ++ [m]) :
    m' ∈ t' ↔ m' ∈ t ∨ m' = m := by
  rw [Table.mem_def, Table.mem_def, h, List.mem_append, List.mem_singleton]

theorem dropCharacter_message : m ∈ (d.dropCharacter c).messages ↔
    m ∈ d.messages ∧ Moves.ownsChat d c m.chatId = false :=
  Table.mem_delete

theorem dropCharacter_link : (d.dropCharacter c).link i =
    (d.link i).filter fun k => !Moves.ownsChat d c k.fst := by
  rw [Db.link, Moves.dropCharacter_run, Db.link]
  cases d.runs.get? i
  case none   => rfl
  case some r =>
    rw [Option.map_some, Option.filter_some, Option.filter_some]
    split <;> rfl

-- A run whose text is posted had no message.
theorem Posts.linked (h : Posts d d' r m) (hd : Linked d) (hr : r.messageId = none) :
    (∀ m' ∈ d'.messages, ∀ i, m'.generationRunId = some i → d'.link i = some (m'.chatId, some m'.id)) ∧
    ∀ i c k, d'.link i = some (c, some k) → ∃ m' ∈ d'.messages, m'.id = k ∧ m'.generationRunId = some i := by
  have hlink : d.link r.runId = some (r.chatId, none) := by
    rw [Db.link, h.row, ← hr]
    rfl
  constructor
  case left =>
    intro m' hm' i hi
    rw [h.links]
    rcases (mem_of_rows h.messages).mp hm' with hm' | rfl
    case inl =>
      have hold := hd.run m' hm' i hi
      have hne : i ≠ r.runId := by
        rintro rfl
        cases (Prod.mk.inj <| Option.some.inj <| hlink.symm.trans hold).right
      rw [if_neg hne]
      exact hold
    case inr =>
      rw [h.run] at hi
      rw [if_pos (Option.some.inj hi).symm, h.chat]
  case right =>
    intro i c k hk
    rw [h.links] at hk
    split at hk
    case isTrue hi =>
      obtain rfl := Option.some.inj (Prod.mk.inj <| Option.some.inj hk).right
      exact ⟨m, (mem_of_rows h.messages).mpr <| .inr rfl, rfl, hi ▸ h.run⟩
    case isFalse =>
      obtain ⟨m', hm', hid, hrun⟩ := hd.message i c k hk
      exact ⟨m', (mem_of_rows h.messages).mpr <| .inl hm', hid, hrun⟩

theorem Linked.step_links (hd : Linked d) (h₀ : MessageStep d l d') :
    (∀ m' ∈ d'.messages, ∀ i, m'.generationRunId = some i → d'.link i = some (m'.chatId, some m'.id)) ∧
    ∀ i c k, d'.link i = some (c, some k) → ∃ m' ∈ d'.messages, m'.id = k ∧ m'.generationRunId = some i := by
  cases h₀.right
  case posting hposting =>
    cases hposting
    case silent h =>
      rw [h.messages]
      exact ⟨fun m hm i hi => (h.links i).trans <| hd.run m hm i hi,
        fun i c k hk => hd.message i c k <| (h.links i).symm.trans hk⟩
    case keeps h _ hr => exact h.linked hd hr
    case completes r m h hl =>
      -- A run completes only if it has not ended, and then has no message.
      refine h.linked hd <| Option.not_isSome_iff_eq_none.mp fun hsome => ?_
      have hlegal := h₀.left.legal
      rw [hl] at hlegal
      exact hlegal.live h.row <| hd.ended r.runId r h.row hsome
    case drops c h =>
      subst h
      constructor
      case left =>
        intro m hm i hi
        have ⟨hm, howns⟩ := dropCharacter_message.mp hm
        rw [dropCharacter_link, hd.run m hm i hi, Option.filter_some, howns]
        rfl
      case right =>
        intro i c' k hk
        rw [dropCharacter_link] at hk
        have ⟨hk, howns⟩       := Option.filter_eq_some_iff.mp hk
        have ⟨m, hm, hid, hrun⟩ := hd.message i c' k hk
        have hchat := (Prod.mk.inj <| Option.some.inj <| (hd.run m hm i hrun).symm.trans hk).left
        refine ⟨m, dropCharacter_message.mpr ⟨hm, ?_⟩, hid, hrun⟩
        rw [hchat]
        simpa using howns
  case starts i₀ c₀ hnew hlink hothers hmessages _ =>
    rw [hmessages]
    constructor
    case left =>
      intro m hm i hi
      have hold := hd.run m hm i hi
      have hne : i ≠ i₀ := by
        rintro rfl
        rw [hnew] at hold
        cases hold
      rw [hothers i hne]
      exact hold
    case right =>
      intro i c k hk
      by_cases hi : i = i₀
      case pos =>
        rw [hi, hlink] at hk
        cases hk
      case neg =>
        rw [hothers i hi] at hk
        exact hd.message i c k hk

-- A run that has a message has ended.
theorem Linked.step_ended (hd : Linked d) (h : MessageStep d l d') (hr' : d'.runs.get? i = some r')
    (hsome : r'.messageId.isSome) : isTerminal r'.status := by
  obtain rfl := Table.get?_key_eq hr'
  have hlink' : d'.link r'.runId = some (r'.chatId, r'.messageId) := congrArg (Option.map _) hr'
  -- The message of the run is the one that it had, or has been posted with this very commit.
  have hbefore : d.link r'.runId = some (r'.chatId, r'.messageId) ∨
      ∃ act, l = .run r'.runId act ∧ act.insertsMessage := by
    have hposts {r m act} (h : Posts d d' r m) (hl : l = .run r.runId act) (hact : act.insertsMessage) :
        d.link r'.runId = some (r'.chatId, r'.messageId) ∨ ∃ act, l = .run r'.runId act ∧ act.insertsMessage := by
      rw [h.links] at hlink'
      split at hlink'
      case isTrue hi => exact .inr ⟨act, hi ▸ hl, hact⟩
      case isFalse   => exact .inl hlink'
    cases h.right
    case posting hposting =>
      cases hposting
      case silent h       => exact .inl <| (h.links _).symm.trans hlink'
      case keeps h hl _   => exact hposts h hl rfl
      case completes h hl => exact hposts h hl rfl
      case drops c h      =>
        subst h
        rw [dropCharacter_link] at hlink'
        exact .inl (Option.filter_eq_some_iff.mp hlink').left
    case starts i₀ c₀ hnew hlink hothers _ _ =>
      by_cases hi : r'.runId = i₀
      case pos =>
        rw [hi, hlink] at hlink'
        rw [← (Prod.mk.inj <| Option.some.inj hlink').right] at hsome
        cases hsome
      case neg => exact .inl <| (hothers _ hi).symm.trans hlink'
  cases h.left.legal.effect.origin hr'
  case start hlabel hnone _ =>
    rcases hbefore with hbefore | ⟨act, hact, _⟩
    · rw [Db.link, hnone] at hbefore
      cases hbefore
    · rw [hlabel] at hact
      cases hact
  case same _ hr _ => exact hd.ended _ r' hr hsome
  case step act r hstep hlabel =>
    rcases hbefore with hbefore | ⟨act', hact', hinserts⟩
    · rw [hstep.id, Db.link, hstep.row] at hbefore
      have hsame := (Prod.mk.inj <| Option.some.inj hbefore).right
      exact hstep.step.ended <| hd.ended r.runId r hstep.row (hsame ▸ hsome)
    · rcases hlabel with hlabel | ⟨hlabel, _⟩
      · rw [hact'] at hlabel
        obtain ⟨_, rfl⟩ := Label.run.inj hlabel
        exact hstep.step.ends hinserts
      · rw [hact'] at hlabel
        cases hlabel

theorem Linked.step (hd : Linked d) (h : MessageStep d l d') : Linked d' :=
  have ⟨hrun, hmessage⟩ := hd.step_links h
  ⟨hrun, hmessage, fun _ _ hr hsome => hd.step_ended h hr hsome⟩

end Steps

section Histories

variable {j : Journal Label Db}

-- No message of a run is there before the first run.
def NoRunMessages (d : Db) : Prop :=
  ∀ m ∈ d.messages, m.generationRunId = none

theorem Reachable.postings (h : Reachable j) : Grows PostingStep ⟨j.base, []⟩ j := by
  induction h
  case fresh => exact .refl
  case crash n ih => exact ih.crash n
  case session w _ leaseOwner registry turns ih =>
    have hmain : Moves.Starter (Kernel.writerMain leaseOwner registry turns) := Moves.starter_writerMain
    have hgrows := (hmain w).later.grows
    rw [hgrows.base_eq]
    exact ih.trans hgrows

theorem Reachable.messageSteps (h : Reachable j) : Grows MessageStep ⟨j.base, []⟩ j := by
  have ⟨d, _, _, hgrows, _⟩ := h.grows
  have hbase : j.base = d := hgrows.base_eq
  rw [← hbase] at hgrows
  exact hgrows.and h.postings

theorem Reachable.runs_empty (h : Reachable j) : j.base.runs = .empty := by
  have ⟨d, hr, _, hgrows, _⟩ := h.grows
  rw [hgrows.base_eq]
  exact hr

theorem Reachable.linked (h : Reachable j) (hbase : NoRunMessages j.base) : Linked j.state := by
  refine h.messageSteps.preserves_state (fun _ _ _ hd hs => hd.step hs) ⟨?_, ?_, ?_⟩
  · intro m hm i hi
    rw [hbase m hm] at hi
    cases hi
  · intro i c k hk
    rw [Db.link, Journal.state, h.runs_empty] at hk
    cases hk
  · intro i r hr
    rw [Journal.state, h.runs_empty] at hr
    cases hr

-- The message `m` has come into the database with a commit.
structure Inserted (d d' : Db) (m : MessageRow) : Prop where
  absent  : m ∉ d.messages
  present : m ∈ d'.messages

-- What is inserted is the text of a run, in the last place of its chat.
structure Assigned (d : Db) (m : MessageRow) (i : String) : Prop where
  run      : m.generationRunId = some i
  content  : m.content = String.join (d.deltaTexts i)
  ordered  : ((d.eventsOf i).map (·.sequence)).Pairwise (· < ·)
  isOpen   : (d.chats.get? m.chatId).isSome
  sequence : ∀ m' ∈ d.messages, m'.chatId = m.chatId → m'.sequence < m.sequence

theorem Reachable.ordered (h : Reachable j) (hr : j.state.runs.get? i = some r) :
    ((j.state.eventsOf i).map (·.sequence)).Pairwise (· < ·) := by
  have hlog := (generation_log_invariant h).left i r hr
  by_cases hd : discarded i j.commits
  case pos =>
    rw [(hlog.left hd).left]
    exact .nil
  case neg =>
    rw [(hlog.right hd).sequences, List.pairwise_map]
    exact List.pairwise_lt_range.imp fun h => Int.ofNat_lt.mpr h

theorem delta_injective {texts texts' : List String}
    (h : texts.map GenerationEvent.delta = texts'.map .delta) : texts = texts' :=
  List.map_injective_iff.mpr (fun _ _ h => GenerationEvent.delta.inj h) h

theorem Posts.assigned {d d' : Db} (h : Posts d d' r m) (hj : Reachable j) (hd : d = j.state)
    (hi : Inserted d d' m') : Assigned d m' r.runId := by
  obtain rfl := ((mem_of_rows h.messages).mp hi.present).resolve_left hi.absent
  have hrow := h.row
  rw [hd] at hrow
  have ⟨hp, _⟩              := hj.deltas hrow
  have ⟨texts, htexts, hcontent⟩ := h.content
  rw [hd, hp] at htexts
  have heq := delta_injective htexts
  refine ⟨h.run, ?_, ?_, h.isOpen, fun m hm hchat => ?_⟩
  · rw [hcontent, ← heq, hd]
  · rw [hd]
    exact hj.ordered hrow
  · rw [h.sequence, ← hchat]
    exact lt_nextMessageSequence hm

-- Only the text of a run is ever inserted.
theorem Reachable.assigned (h : Reachable j) (hs : MessageStep j.state l d') (hi : Inserted j.state d' m) :
    ∃ i, Assigned j.state m i := by
  cases hs.right
  case posting hposting =>
    cases hposting
    case silent hs     => exact absurd (hs.messages ▸ hi.present) hi.absent
    case keeps hp _ _  => exact ⟨_, hp.assigned h rfl hi⟩
    case completes hp _ => exact ⟨_, hp.assigned h rfl hi⟩
    case drops hd      =>
      subst hd
      exact absurd (dropCharacter_message.mp hi.present).left hi.absent
  case starts hmessages _ => exact absurd (hmessages ▸ hi.present) hi.absent

-- A message stays as long as its chat does.
def Kept (d d' : Db) : Prop :=
  ∀ m, m ∈ d.messages ∨ d.chats.get? m.chatId = none → m ∈ d'.messages ∨ d'.chats.get? m.chatId = none

theorem dropCharacter_kept (d : Db) (c : String) : Kept d (d.dropCharacter c) := by
  intro m hm
  have hchat : (d.dropCharacter c).chats.get? m.chatId =
      (d.chats.get? m.chatId).filter fun chat => !(chat.characterId = c) := Table.get?_delete
  rw [dropCharacter_message, hchat]
  rcases hm with hm | hnone
  case inr =>
    rw [hnone]
    exact .inr rfl
  case inl =>
    cases howns : Moves.ownsChat d c m.chatId
    case false => exact .inl ⟨hm, rfl⟩
    case true  =>
      have ⟨chat, hchat, hid⟩ := List.mem_map.mp <| List.contains_iff_mem.mp howns
      have ⟨hchat, hcharacter⟩ := List.mem_filter.mp hchat
      have hget : d.chats.get? m.chatId = some chat := Table.get?_eq_some_iff.mpr ⟨hchat, hid⟩
      rw [hget, Option.filter_some, hcharacter]
      exact .inr rfl

theorem MessageStep.kept {d d' : Db} (h : MessageStep d l d') : Kept d d' := by
  have hposts {r m} (h : Posts d d' r m) : Kept d d' := by
    intro m' hm'
    rw [h.chats]
    exact hm'.imp_left fun hm' => (mem_of_rows h.messages).mpr <| .inl hm'
  cases h.right
  case posting hposting =>
    cases hposting
    case silent h =>
      intro m hm
      rw [h.messages, h.chats]
      exact hm
    case keeps h _ _   => exact hposts h
    case completes h _ => exact hposts h
    case drops c h     => exact h ▸ dropCharacter_kept d c
  case starts hmessages hchats =>
    intro m hm
    rw [hmessages, hchats]
    exact hm

theorem Journal.Grows.kept {j k : Journal Label Db} (h : Grows MessageStep j k) (hj : j.commits = []) :
    ∀ cs c ds, k.commits = cs ++ c :: ds → Kept c.state k.state := by
  refine h.preserves (I := fun k => ∀ cs c ds, k.commits = cs ++ c :: ds → Kept c.state k.state) ?_ ?_
  · intro k l d hk hs cs c ds hcommits
    cases cs
    case nil =>
      obtain ⟨rfl, _⟩ := List.cons.inj hcommits
      exact fun _ hm => hm
    case cons _ cs =>
      have ⟨_, hcommits⟩ := List.cons.inj hcommits
      exact fun m hm => hs.kept m <| hk cs c ds hcommits m hm
  · intro cs c ds hcommits
    rw [hj] at hcommits
    cases cs <;> cases hcommits

-- Each run has at most one message, which is its text at the time of the insertion, and the run knows it.
structure OneMessage (j : Journal Label Db) : Prop where
  unique   : ∀ m ∈ j.state.messages, ∀ m' ∈ j.state.messages, ∀ i,
    m.generationRunId = some i → m'.generationRunId = some i → m = m'
  linked   : ∀ i r, j.state.runs.get? i = some r →
    ∀ k, r.messageId = some k ↔ ∃ m ∈ j.state.messages, m.generationRunId = some i ∧ m.id = k
  assigned : ∀ cs c ds m, j.commits = cs ++ c :: ds → Inserted (Journal.state ⟨j.base, ds⟩) c.state m →
    ∃ i, Assigned (Journal.state ⟨j.base, ds⟩) m i
  history  : ∀ m ∈ j.state.messages, ∀ i, m.generationRunId = some i →
    ∃ cs c ds, j.commits = cs ++ c :: ds ∧ Inserted (Journal.state ⟨j.base, ds⟩) c.state m
  distinct : ∀ cs c cs' c' ds m m', j.commits = cs ++ c :: cs' ++ c' :: ds →
    Inserted (Journal.state ⟨j.base, cs' ++ c' :: ds⟩) c.state m →
    Inserted (Journal.state ⟨j.base, ds⟩) c'.state m' → m.chatId = m'.chatId → m'.sequence < m.sequence

theorem Reachable.before (h : Reachable j) (hj : j.commits = cs ++ ds) : Reachable ⟨j.base, ds⟩ := by
  have hdrop : j.crash cs.length = ⟨j.base, ds⟩ := by
    rw [Journal.crash, hj, List.drop_left]
  exact hdrop ▸ h.crash cs.length

theorem Reachable.step_at (h : Reachable j) (hj : j.commits = cs ++ c :: ds) :
    MessageStep (Journal.state ⟨j.base, ds⟩) c.label c.state :=
  h.messageSteps.step hj List.nil_suffix

theorem Reachable.history (h : Reachable j) (hbase : NoRunMessages j.base) (hm : m ∈ j.state.messages)
    (hi : m.generationRunId = some i) :
    ∃ cs c ds, j.commits = cs ++ c :: ds ∧ Inserted (Journal.state ⟨j.base, ds⟩) c.state m := by
  have hall := h.messageSteps.preserves (I := fun k => k.base = j.base → ∀ m ∈ k.state.messages,
    m ∈ k.base.messages ∨ ∃ cs c ds, k.commits = cs ++ c :: ds ∧
      Inserted (Journal.state ⟨k.base, ds⟩) c.state m) ?_ fun _ m hm => .inl hm
  · rcases hall rfl m hm with hm | hex
    · rw [hbase m hm] at hi
      cases hi
    · exact hex
  · intro k l d hk _ hb m hm
    by_cases hold : m ∈ k.state.messages
    case pos =>
      rcases hk hb m hold with hold | ⟨cs, c, ds, hcommits, hins⟩
      · exact .inl hold
      · exact .inr ⟨⟨l, d⟩ :: cs, c, ds, congrArg (_ :: ·) hcommits, hins⟩
    case neg => exact .inr ⟨[], ⟨l, d⟩, k.commits, rfl, hold, hm⟩

theorem one_message_per_run (h : Reachable j) (hbase : NoRunMessages j.base) : OneMessage j where
  unique := by
    intro m hm m' hm' i hi hi'
    have hlinked := h.linked hbase
    have hid := (hlinked.run m hm i hi).symm.trans <| hlinked.run m' hm' i hi'
    refine Table.eq_of_mem_of_key_eq hm hm' ?_
    exact Option.some.inj (Prod.mk.inj <| Option.some.inj hid).right
  linked := by
    intro i r hr k
    have hlinked := h.linked hbase
    have hlink : j.state.link i = some (r.chatId, r.messageId) := congrArg (Option.map _) hr
    constructor
    case mp  =>
      intro hk
      have ⟨m, hm, hid, hrun⟩ := hlinked.message i r.chatId k (hk ▸ hlink)
      exact ⟨m, hm, hrun, hid⟩
    case mpr =>
      intro ⟨m, hm, hrun, hid⟩
      have hsame := hlink.symm.trans <| hlinked.run m hm i hrun
      exact (Prod.mk.inj <| Option.some.inj hsame).right.trans <| congrArg some hid
  assigned := by
    intro cs c ds m hj hi
    have hj' : j.commits = (cs ++ [c]) ++ ds := by simpa using hj
    have hbefore := h.before hj'
    exact hbefore.assigned (h.step_at hj) hi
  history := fun m hm i hi => h.history hbase hm hi
  distinct := by
    intro cs c cs' c' ds m m' hj hi hi' hchat
    have hj' : j.commits = cs ++ c :: (cs' ++ c' :: ds) := by simpa using hj
    have hj'' : j.commits = (cs ++ [c]) ++ (cs' ++ c' :: ds) := by simpa using hj
    have hbefore := h.before hj''
    have ⟨i, ha⟩ := hbefore.assigned (h.step_at hj') hi
    have hkept := hbefore.messageSteps.kept rfl cs' c' ds rfl m' (.inl hi'.present)
    refine ha.sequence m' (hkept.resolve_right fun hnone => ?_) hchat.symm
    have hopen := ha.isOpen
    rw [hchat, hnone] at hopen
    cases hopen

open Sample in
theorem one_message_per_run_written : OneMessage (written "Hello").journal := by
  have hbase : (written "Hello").journal.base.messages.rows.all (·.generationRunId.isNone) := by decide +kernel
  refine one_message_per_run (written_reachable "Hello") fun m hm => ?_
  exact Option.isNone_iff_eq_none.mp <| List.all_eq_true.mp hbase m hm

end Histories
