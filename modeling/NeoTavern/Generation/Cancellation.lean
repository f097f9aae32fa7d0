import NeoTavern.Generation.History
import NeoTavern.Generation.Operations
import NeoTavern.Generation.Progress

open Wire Storage Kernel Proc

-- The command cancels the run, unless its caller has given up on it.
def Kernel.Command.cancels (runId : String) : Command → Bool
  | .unary (.generationCancel (.object req)) false => req.workflowId = runId
  | _                                              => false

-- The command neither shuts the kernel down nor deletes the character.
def Kernel.Command.spares (characterId : String) : Command → Bool
  | .shutdown                                      => false
  | .unary (.charactersDelete (.object req)) false => req.characterId ≠ characterId
  | _                                              => true

namespace At

variable {job : Job} {texts : List String} {c : Bool} {d d' : Db} {run : RunRow} {op : UnaryOp}

theorem same (h : At job texts c d run) (hs : d.Same d' job.runId) (hc : d'.Consistent)
    (hd : (d'.chats.get? job.plan.chatId).map (·.characterId) = some job.characterId) :
    At job texts c d' run := by
  have hl : d'.runLog run = d.runLog run := by
    rw [Db.runLog, Db.runLog, h.id_eq, hs.events]
  exact ⟨hs.row.trans h.row, h.live, hl ▸ h.sound, hc, h.plan, hd, hl ▸ h.texts, h.cancelled⟩

theorem chat_drop (h : At job texts c d run) (hn : characterId ≠ job.characterId) :
    ((d.dropCharacter characterId).chats.get? job.plan.chatId).map (·.characterId) =
      some job.characterId := by
  have ⟨chat, hg, hc⟩ := Option.map_eq_some_iff.mp h.chat
  have hd : (d.dropCharacter characterId).chats.get? job.plan.chatId = some chat := by
    rw [Db.dropCharacter, Table.get?_delete, hg]
    simp [Option.filter, hc, hn.symm]
  simpa [hd] using hc

-- The deletion of a character leaves the runs of the others alone.
theorem drop (h : At job texts c d run) (hn : characterId ≠ job.characterId) :
    (d.dropCharacter characterId).runs.get? job.runId ≠ none := by
  have ⟨chat, hg, hc⟩ := Option.map_eq_some_iff.mp h.chat
  have ho : Moves.ownsChat d characterId run.chatId = false := by
    by_contra hn'
    simp only [Moves.ownsChat, Bool.not_eq_false, List.contains_eq_mem, decide_eq_true_eq,
      List.mem_map, List.mem_filter] at hn'
    have ⟨chat', ⟨hm, hc'⟩, hi⟩ := hn'
    have hp : run.chatId = job.plan.chatId := congrArg RunPlan.chatId h.plan
    obtain rfl : chat' = chat := Table.eq_of_mem_of_key_eq hm (Table.mem_of_get? hg) <|
      (hi.trans hp).trans (Table.get?_key_eq hg).symm
    exact hn <| hc' ▸ hc
  simp [Moves.dropCharacter_run, h.row, Option.filter, ho]

-- An operation that neither cancels the run nor deletes the character leaves the run as it is.
theorem follow (h : At job texts c d run) (hs : OpStep op d l d')
    (hc : ¬Command.cancels job.runId (.unary op false))
    (hd : Command.spares job.characterId (.unary op false)) : At job texts c d' run := by
  have hcons := hs.legal.consistent h.consistent
  have hchat (hn : ∀ c, l ≠ .drop c) :
      (d'.chats.get? job.plan.chatId).map (·.characterId) = some job.characterId := by
    rw [hs.legal.chats hn]
    exact h.chat
  have ha := hs.allowed
  cases hs.legal.effect
  case start          => cases op <;> simp [UnaryOp.allows] at ha
  case recover        => cases op <;> simp [UnaryOp.allows] at ha
  case product all    => exact h.same (all _) hcons <| hchat (by simp)
  case idle all       => exact h.same (all _) hcons <| hchat (by simp)
  case drop i all     =>
    have hn : i ≠ job.characterId := by
      unfold UnaryOp.allows at ha
      split at ha <;> simp_all [Command.spares]
    obtain rfl := hs.legal.dropped i rfl
    exact h.same ((all _).resolve_right <| h.drop hn) hcons <| h.chat_drop hn
  case run act r r' step others =>
    by_cases hi : job.runId = r.runId
    case neg => exact h.same (others _ hi) hcons <| hchat (by simp)
    case pos =>
      obtain rfl : run = r := Option.some.inj <| h.row.symm.trans <| hi ▸ step.row
      obtain rfl : act = .cancel := step.step.unary_live hs.unary.unary h.live
      unfold UnaryOp.allows at ha
      split at ha <;> simp_all [Command.cancels]

end At

namespace Kernel

variable {job : Job} {texts : List String} {c : Bool} {w : World} {run : RunRow} {E : World → Prop}

section Cancel

theorem Ends.generationCancel (h : At job texts c w.db run) :
    Ends (generationCancel (.object ⟨job.runId⟩)) (fun _ t => ∃ r, At job texts true t.db r) E w := by
  have hu : checkRequestWorkflow ⟨job.runId⟩ "" = [] := checkFormat_eq_nil_iff.mpr job.isUuid
  refine bind (Q := fun req t => t.journal = w.journal ∧ req = ⟨job.runId⟩) ?_ ?_
  · simp only [decodeRequest, decode, hu]
    exact pure ⟨rfl, rfl⟩
  · rintro req t₁ _ ⟨hj₁, hreq⟩
    subst hreq
    refine (requireRun <| (h.of_journal_eq hj₁).row).bind fun run' t₂ _ h₂ => ?_
    obtain ⟨hj₂, rfl⟩ := h₂
    refine now.bind fun updatedAt t₃ _ h₃ => ?_
    have h := h.of_journal_eq <| h₃.left.trans <| hj₂.trans hj₁
    unfold cancelLoop
    split
    case isTrue hs =>
      refine (cas (cancelTx_spec h.known hs) h).bind fun changed t₄ _ h₄ => ?_
      rw [if_neg h₄.left]
      exact pure <| h.cancel h₄.right
    case isFalse hs =>
      -- A run that is neither cancellable nor at its end is being cancelled already.
      have hc : run'.status = .cancelling := by
        have := h.live
        cases hst : run'.status <;> simp_all [isCancellable, isTerminal]
      have hq : run'.cancelRequested = true := h.sound.cancelling hc
      rw [if_pos hc]
      exact pure ⟨run', hq ▸ h.cancelled ▸ h⟩

end Cancel

namespace Settles

-- An operation that a drain services while the run executes.
theorem handleUnary (h : At job texts c w.db run)
    (hd : Command.spares job.characterId (.unary op cancelled)) :
    Settles (Proc.attempt <| handleUnary op cancelled) (fun _ t =>
      ∃ r, At job texts (c || Command.cancels job.runId (.unary op cancelled)) t.db r) E w := by
  by_cases hc : Command.cancels job.runId (.unary op cancelled)
  case pos =>
    unfold Command.cancels at hc
    split at hc
    case h_2 => contradiction
    case h_1 req he =>
      obtain ⟨rfl, rfl⟩ := Command.unary.inj he
      obtain rfl : req = ⟨job.runId⟩ := congrArg RequestWorkflow.mk <| of_decide_eq_true hc
      have hk {es} : Keeps (Failed es) (Kernel.generationCancel (.object ⟨job.runId⟩)) :=
        Keeps.generationCancel
      have hs := of_ends (E := fun _ => False) (Ends.generationCancel h) fun _ => hk
      refine attempt (hs.mono (fun _ _ h => ?_) fun _ h => h.right) fun _ _ => False.elim
      simpa [Command.cancels] using h.right
  case neg =>
    rw [Bool.eq_false_of_not_eq_true hc, Bool.or_false]
    refine ⟨?_, fun _ => Keeps.handleUnary.attempt⟩
    have key : ∃ r, At job texts c (Kernel.handleUnary op cancelled w).snd.db r := by
      cases cancelled
      case true  => exact ⟨run, h⟩
      case false =>
        have hm : Moves (OpStep op) (Kernel.handleUnary op false) (fun _ _ => True) w :=
          Moves.handleUnary
        exact hm.later.grows.preserves_state (I := fun d => ∃ r, At job texts c d r)
          (fun _ _ _ ⟨r, h⟩ hs => ⟨r, h.follow hs hc hd⟩) ⟨run, h⟩
    exact fun _ => key

theorem drainCommand (h : At job texts c w.db run) (hd : cmd.spares job.characterId) :
    Settles (drainCommand cmd) (fun shutdown t => shutdown = false ∧
      ∃ r, At job texts (c || cmd.cancels job.runId) t.db r) E w := by
  cases cmd
  case shutdown => contradiction
  case unary op cancelled =>
    exact (handleUnary h hd).bind (fun _ _ => .pure _) fun _ _ h => pure ⟨rfl, h⟩
  all_goals
    refine Settles.bind (Q := fun _ t => ∃ r, At job texts c t.db r) (Settles.modify (fun _ => ?_)
      ⟨run, h⟩) (fun _ _ => .pure _) fun _ _ h => Settles.pure ⟨rfl, ?_⟩
    · exact ⟨rfl, rfl, rfl, rfl⟩
    · simpa [Command.cancels] using h

theorem drainCommands (h : At job texts c w.db run) (hd : ∀ cmd ∈ cs, cmd.spares job.characterId) :
    Settles (drainCommands cs) (fun shutdown t => shutdown = false ∧
      ∃ r, At job texts (c || cs.any (·.cancels job.runId)) t.db r) E w := by
  induction cs generalizing c w run
  case nil => exact pure ⟨rfl, run, by simpa using h⟩
  case cons cmd cs ih =>
    refine (drainCommand h <| hd cmd <| .head _).bind
      (fun _ _ => Keeps.drainCommands.bind fun _ => .pure _) ?_
    intro shutdown t ⟨hs, r, h⟩
    refine (ih h fun cmd hm => hd cmd <| .tail _ hm).bind (fun _ _ => .pure _) ?_
    intro rest u ⟨hr, r, h⟩
    subst hs hr
    exact pure ⟨rfl, r, by simpa [Bool.or_assoc] using h⟩

-- A drain takes one batch.
theorem drainPending (h : At job texts c w.db run)
    (hd : ∀ cmd ∈ w.inbox.headD [], cmd.spares job.characterId) :
    Settles drainPending (fun shutdown t => Waiting w.inbox.tail w.attempts t ∧ shutdown = false ∧
      ∃ r, At job texts (c || (w.inbox.headD []).any (·.cancels job.runId)) t.db r) E w := by
  let w' : World := { w with inbox := w.inbox.tail }
  have hs := drainCommands (w := w') (E := E) h hd
  have hs := hs.keeps (I := Waiting w.inbox.tail w.attempts) Keeps.drainCommands ⟨rfl, rfl⟩
  refine ⟨?_, fun _ => Keeps.drainPending⟩
  exact wp_mono hs.wp (fun _ _ h => h) fun _ _ h ht => (h ht).right

end Settles
end Kernel

open Wire Storage Kernel
open Journal (Grows)

-- What still holds in `d` of a run that was cancelled in `d₀`. Only a keep may turn its text into
-- a message.
structure CancelStands (runId : String) (d₀ d : Db) (since : List (Commit Label Db)) : Prop where
  status   : ∀ r, d.runs.get? runId = some r → settled r.status
  deltas   : ∀ e ∈ d.eventsOf runId, e.type = .delta →
    ∃ e₀ ∈ d₀.eventsOf runId, e₀.sequence = e.sequence ∧ e₀.payload = e.payload
  messages : ∀ m ∈ d.messages, m.generationRunId = some runId →
    m ∈ d₀.messages ∨ ∃ c ∈ since, c.label = .run runId .keep

section Step

variable {d d' : Db} {l : Label} {i : String}

theorem Legal.cancel_settles (h : Legal d (.run i .cancel) d') : Respected d' i ∧ Requested d' i := by
  have key r' (hr : d'.runs.get? i = some r') : r'.status = .cancelling ∧ r'.cancelRequested := by
    obtain rfl := Table.get?_key_eq hr
    cases h.effect.origin hr
    case start he _ _ => contradiction
    case same hl _ _  => exact absurd rfl hl
    case step act r hs hl =>
      simp only [Label.run.injEq, true_and, reduceCtorEq, false_and, or_false] at hl
      exact (hl ▸ hs.step).cancel_status
  exact ⟨fun r hr _ => by simp [key r hr, settled], fun r hr => (key r hr).right⟩

theorem Effect.row_of_run (h : Effect d d' (.run i act)) : ∃ r, d.runs.get? i = some r := by
  generalize hl : Label.run i act = l at h
  cases h
  case run r _ hs _ =>
    simp only [Label.run.injEq] at hl
    exact ⟨r, hl.left ▸ hs.row⟩
  all_goals contradiction

theorem KernelStep.deltas (h : KernelStep True d l d') (hq : Requested d i) (hl : l ≠ .start i)
    (hc : d.Consistent) (hc' : d'.Consistent) (he : e ∈ d'.eventsOf i) (ht : e.type = .delta) :
    ∃ e₀ ∈ d.eventsOf i, e₀.type = .delta ∧ e₀.sequence = e.sequence ∧ e₀.payload = e.payload := by
  obtain ⟨hm, hi⟩ := Db.mem_eventsOf.mp he
  obtain ⟨r', hr⟩ := Option.isSome_iff_exists.mp <| hc'.owner e hm
  obtain rfl := hi.symm.trans (Table.get?_key_eq hr).symm
  have hp := hc'.type e hm
  have hlog : (e.sequence, e.payload) ∈ (d'.runLog r').entries :=
    List.mem_map.mpr ⟨e, he, rfl⟩
  have back : (e.sequence, e.payload) ∈ (d.runLog r').entries := by
    cases h.legal.effect.origin (hi ▸ hr)
    case start hs _ _ => exact absurd hs hl
    case same _ _ hs  => exact hs ▸ hlog
    case step act r hs hl =>
      have ha := h.respects trivial hs hl <| hq r (hs.id ▸ hs.row)
      have hlog' : (d.runLog r').entries = (d.runLog r).entries := by
        simp [Db.runLog, RunLog.of, hs.id]
      cases hpay : e.payload
      case delta text => exact hlog' ▸ hs.step.deltas ha (hpay ▸ hlog)
      all_goals simp_all [GenerationEvent.type]
  obtain ⟨e₀, hm₀, heq⟩ := List.mem_map.mp back
  obtain ⟨hq₁, hq₂⟩ := Prod.mk.inj heq
  refine ⟨e₀, hm₀, ?_, hq₁, hq₂⟩
  rw [hc.type e₀ (Db.mem_eventsOf.mp hm₀).left, hq₂, ← hp, ht]

theorem KernelStep.messages (h : KernelStep True d l d') (hq : Requested d i) (hm : m ∈ d'.messages)
    (hi : m.generationRunId = some i) : m ∈ d.messages ∨ l = .run i .keep := by
  rcases h.legal.messages m hm with hm | ⟨j, act, rfl, ha, hj⟩
  · exact .inl hm
  · obtain rfl := Option.some.inj <| hi.symm.trans hj
    have ⟨r, hr⟩ := h.legal.effect.row_of_run
    have hc := h.cancel trivial _ _ r rfl hr (hq r hr)
    refine .inr ?_
    cases act
    case keep     => rfl
    case finish s => cases s <;> simp_all [Act.respectsCancel, Act.insertsMessage]
    all_goals contradiction

theorem CancelStands.step (hs : CancelStands i d₀ d since) (h : KernelStep True d l d')
    (hq : Requested d i) (hr : Respected d' i) (hq' : Requested d' i) (hl : l ≠ .start i)
    (hc : d.Consistent) (hc' : d'.Consistent) : CancelStands i d₀ d' (⟨l, d'⟩ :: since) where
  status r hg := hr r hg (hq' r hg)
  deltas e he ht := by
    have ⟨e₁, he₁, ht₁, hs₁, hp₁⟩ := h.deltas hq hl hc hc' he ht
    have ⟨e₀, he₀, hs₀, hp₀⟩ := hs.deltas e₁ he₁ ht₁
    exact ⟨e₀, he₀, hs₀.trans hs₁, hp₀.trans hp₁⟩
  messages m hm hi := by
    rcases h.messages hq hm hi with hm | rfl
    · rcases hs.messages m hm hi with hm | ⟨c, hc, hk⟩
      · exact .inl hm
      · exact .inr ⟨c, .tail _ hc, hk⟩
    · exact .inr ⟨_, .head _, rfl⟩

end Step

section Run

variable {i j : Journal Label Db} {runId : String}

-- The cancel stands as long as the kernel commits only steps that respect it.
theorem Journal.Grows.cancelStands (h : Grows (KernelStep True) i j) (hi : i.state.Consistent)
    (hj : j.commits = since ++ c :: earlier) (he : i.commits <:+ earlier)
    (hc : c.label = .run runId .cancel) (hs : ∀ c' ∈ since, c'.label ≠ .start runId) :
    (Requested j.state runId ∧ Respected j.state runId) ∧
    CancelStands runId c.state j.state since := by
  induction since generalizing j
  case nil =>
    have hstep := h.step hj he
    have hstate : j.state = c.state := by simp [Journal.state, hj]
    rw [hc] at hstep
    obtain ⟨hr, hq⟩ := hstep.legal.cancel_settles
    rw [hstate]
    refine ⟨⟨hq, hr⟩, fun r hg => hr r hg (hq r hg), ?_, fun m hm _ => .inl hm⟩
    exact fun e he _ => ⟨e, he, rfl, rfl⟩
  case cons c' since ih =>
    have he' : i.commits <:+ since ++ c :: earlier :=
      he.trans <| (List.suffix_cons ..).trans <| List.suffix_append ..
    have hk := h.before (show j.commits = [c'] ++ (since ++ c :: earlier) from hj) he'
    obtain ⟨⟨hq, hr⟩, hst⟩ := ih hk rfl fun c hm => hs c <| .tail _ hm
    have hstep := h.step (show j.commits = [] ++ c' :: (since ++ c :: earlier) from hj) he'
    have hl := hs c' <| .head _
    have hstate : j.state = c'.state := by simp [Journal.state, hj]
    have hr' := hstep.respected trivial hr
    have hq' := hstep.legal.requested hl hq
    have hcons := hk.consistent hi
    rw [hstate]
    exact ⟨⟨hq', hr'⟩, hst.step hstep hq hr' hq' hl hcons (hstep.legal.consistent hcons)⟩

end Run

-- A cancel that is answered with success has been committed, unless there was nothing left to do.
theorem generationCancel_commits {w t : World} (hc : generationCancel (.object req) w = (.ok (), t))
    (hw : ¬Cancelling w.db req.workflowId) : ∃ since c earlier,
      t.journal.commits = since ++ c :: earlier ∧ w.journal.commits <:+ earlier ∧
      c.label = .run req.workflowId .cancel ∧ Requested c.state req.workflowId := by
  have hm : Moves (CancelStep req.workflowId) (generationCancel (.object req))
    (fun _ t => Cancelling t.db req.workflowId) w := Moves.generationCancel_object
  have ⟨hg, ht⟩ := (Proc.wp_of_ok hc).mp hm.wp
  refine (hg.grows.preserves (I := fun j => w.journal.commits <:+ j.commits ∧ (j.state = w.db ∨
    ∃ since c earlier, j.commits = since ++ c :: earlier ∧ w.journal.commits <:+ earlier ∧
      c.label = .run req.workflowId .cancel ∧ Requested c.state req.workflowId)) ?_ ⟨List.suffix_rfl, .inl rfl⟩).right.resolve_left ?_
  · intro j l d ⟨hj, hi⟩ hs
    refine ⟨hj.trans <| List.suffix_cons .., ?_⟩
    rcases hs.label with rfl | ⟨rfl, rfl⟩
    · exact .inr ⟨[], _, _, rfl, hj, rfl, hs.legal.cancel_settles.right⟩
    · rcases hi with hi | ⟨since, c, earlier, hc, hrest⟩
      · exact .inl hi
      · exact .inr ⟨⟨.idle, j.state⟩ :: since, c, earlier, by simp [Journal.push, hc], hrest⟩
  · exact fun h => hw <| h ▸ ht

def Sample.queued : World :=
  (streamStart (.start <| .object ⟨chatId, "Hello", none, none⟩) "owner" <| world []).snd

open Sample in
theorem generationCancel_commits_queued : ∃ t since c earlier,
    generationCancel (.object ⟨runId⟩) queued = (.ok (), t) ∧
    t.journal.commits = since ++ c :: earlier ∧ queued.journal.commits <:+ earlier ∧
    c.label = .run runId .cancel ∧ Requested c.state runId := by
  have hw : wp (generationCancel <| .object ⟨runId⟩) (fun a _ => a = ()) (fun _ _ => False) queued := by
    decide +kernel
  have hs : (queued.db.runs.get? runId).map (·.status) = some .queued := by decide +kernel
  have hc := eq_ok_of_wp hw
  have ⟨since, c, earlier, h⟩ := generationCancel_commits hc fun ⟨r, hr, h⟩ => by simp [hr, h] at hs
  exact ⟨_, since, c, earlier, hc, h⟩

-- A cancel stands for the rest of the kernel's life if no first drain of an executor finds it.
theorem cancel_stands {w t : World} (hw : Reachable w.journal) (ho : registry.Obedient)
    (hb : CleanTurns leaseOwner registry turns (recover w).snd)
    (ht : (writerMain leaseOwner registry turns w).snd = t)
    (hj : t.journal.commits = later ++ since ++ c :: earlier) (he : w.journal.commits <:+ earlier) (hc : c.label = .run runId .cancel)
    (hs : ∀ c' ∈ since, c'.label ≠ .start runId) :
    CancelStands runId c.state (Journal.state ⟨w.journal.base, since ++ c :: earlier⟩) since := by
  have ⟨d, _, _, _, hcons⟩ := hw.grows
  have hm : Moves (KernelStep True) (writerMain leaseOwner registry turns) (fun _ _ => True) w :=
    Moves.writerMain hcons (fun _ => ho) fun _ => hb
  have he' : w.journal.commits <:+ since ++ c :: earlier :=
    he.trans <| (List.suffix_cons ..).trans <| List.suffix_append ..
  subst ht
  have hg := hm.later.grows.before (by rw [hj, List.append_assoc]) he'
  rw [hm.later.grows.base_eq] at hg
  exact hg.cancelStands hcons rfl he hc hs |>.right

def Kernel.Label.act? : Label → Option Act
  | .run _ act => some act
  | _          => none

def Kernel.Label.cancels? : Label → Option String
  | .run i .cancel => some i
  | _              => none

theorem exists_cancel {cs : List (Commit Label Db)}
    (h : cs[n]?.bind (·.label.cancels?) = some i) :
    ∃ c, cs = [] ++ cs.take n ++ c :: cs.drop (n + 1) ∧ c.label = .run i .cancel := by
  have ⟨c, hc, hl⟩ := Option.bind_eq_some_iff.mp h
  have ⟨hn, hc⟩ := List.getElem?_eq_some_iff.mp hc
  refine ⟨c, ?_, ?_⟩
  · rw [← hc, List.nil_append, ← List.drop_eq_getElem_cons hn, List.take_append_drop]
  · unfold Label.cancels? at hl
    split at hl <;> simp_all

-- The cancel arrives between the start and the first drain.
def Sample.overridden : World :=
  (writerMain "owner" [Sample.provider []] 1 <| Sample.world [[Sample.start, Sample.cancel]]).snd

open Sample

theorem cancel_overridden : Reachable overridden.journal ∧ ProviderRegistry.Obedient [provider []] ∧
    overridden.journal.commits.map (·.label.runId?) =
      [some runId, some runId, some runId, some runId, some runId, none] ∧
    overridden.journal.commits.map (·.label.act?) = [
      some (.finish .completed), some (.advance .streaming), some (.advance .preparing),
      some .cancel, none, none
    ] ∧
    (overridden.db.runs.get? runId).map (·.status) = some .completed ∧
    overridden.db.messages.rows.map (·.generationRunId) = [some runId] := by
  have hw : Reachable (world [[start, cancel]]).journal := .fresh rfl rfl
  have hr : Reachable overridden.journal := by
    unfold overridden
    exact hw.session "owner" [provider []] 1
  refine ⟨hr, provider_obedient [], ?_, ?_, ?_, ?_⟩
  all_goals decide +kernel

theorem cancel_stands_stopped : ∃ since c earlier, stopped.journal.commits = since ++ c :: earlier ∧
    c.label = .run runId .cancel ∧
    CancelStands runId c.state
      (Journal.state ⟨(world [[start], [cancel]]).journal.base, since ++ c :: earlier⟩) since := by
  have hb : CleanTurns "owner" [provider ["Hello"]] 1 (recover <| world [[start], [cancel]]).snd := by
    decide +kernel
  have hc : stopped.journal.commits[1]?.bind (·.label.cancels?) = some runId := by decide +kernel
  have hs : ∀ c ∈ stopped.journal.commits.take 1, c.label.act?.isSome := by decide +kernel
  have ht : (writerMain "owner" [provider ["Hello"]] 1 <| world [[start], [cancel]]).snd = stopped :=
    rfl
  have hw : Reachable (world [[start], [cancel]]).journal := .fresh rfl rfl
  have ⟨c, hj, hc⟩ := exists_cancel hc
  generalize stopped.journal.commits.take 1 = since, stopped.journal.commits.drop 2 = earlier at hj hs
  have hn : ∀ c ∈ since, c.label ≠ .start runId := by
    intro c hm he
    simpa [he, Label.act?] using hs c hm
  have h := cancel_stands hw (provider_obedient ["Hello"]) hb ht hj List.nil_suffix hc hn
  exact ⟨since, c, earlier, hj, hc, h⟩

open Wire Storage Kernel

section Recover

variable {w : World}

theorem recover_db (h : w.env.fault w.ops = none) (ht : (w.env.clock w.ticks).format = t) :
    (recover w).snd.db = { w.db with runs := w.db.runs.update (isStale t) (interrupt t) } := by
  subst ht
  simp only [recover, now, utcNow, transaction, faulty, recoverTx, Tx.updateRuns, Proc.bind_def,
    Proc.bind, Proc.pure_def, Proc.pure, Proc.gets, Proc.modify, h]
  rfl

theorem recover_get? (h : w.env.fault w.ops = none) (ht : (w.env.clock w.ticks).format = t) :
    (recover w).snd.db.runs.get? i =
    (w.db.runs.get? i).map fun r => if isStale t r then interrupt t r else r := by
  rw [recover_db h ht]
  exact recover_row

theorem isStale_iff {t : String} {r : RunRow} :
    isStale t r ↔ ¬isTerminal r.status ∧ ∀ lease, r.leaseExpiresAt = some lease → lease < t := by
  cases hs : r.status <;> cases hl : r.leaseExpiresAt <;> simp [isStale, isTerminal, hs, hl]

theorem recover_stale (h : w.env.fault w.ops = none) (ht : (w.env.clock w.ticks).format = t)
    (hr : w.db.runs.get? i = some r) (hs : isStale t r) :
    ∃ r', (recover w).snd.db.runs.get? i = some r' ∧ isRecoverable r'.status :=
  ⟨interrupt t r, by simp [recover_get? h ht, hr, hs], rfl⟩

end Recover

namespace Sample

-- The process dies right after it has created the run, and the next one starts ten seconds later.
def reopened : World where
  journal := stopped.journal.crash 4
  env     := { env with clock n := ⟨2025, 1, 1, 0, 0, ⟨(n + 10) % 60, by omega⟩, 0⟩ }
  inbox   := []

-- The next process starts after the lease of the run.
def reopenedLate : World where
  journal := stopped.journal.crash 4
  env     := { env with clock n := ⟨2025, 1, 1, 0, 1, .ofNat 60 n, 0⟩ }
  inbox   := []

end Sample

open Sample

example : isRecoverable .queued = false := by
  decide +kernel
