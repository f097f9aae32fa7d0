import NeoTavern.Generation.Operations
import NeoTavern.Kernel.Ends

open Wire Storage Kernel Proc

namespace RunLog

def deltaText? (e : Int × GenerationEvent) : Option String :=
  match e.snd with
  | .delta text => some text
  | _           => none

-- The committed deltas.
def texts (l : RunLog) : List String :=
  l.entries.filterMap deltaText?

theorem Step.texts_delta (h : Step (.delta text) l l') : l'.texts = l.texts ++ [text] := by
  cases h <;> simp [texts, touch, append, appendDelta, appendCheckpoint, deltaText?]

theorem Step.texts_advance (h : Step (.advance s) l l') : l'.texts = l.texts := by
  cases h
  case advance => rfl

theorem Step.texts_cancel (h : Step .cancel l l') : l'.texts = l.texts := by
  cases h
  case cancel => rfl

theorem textLength_nonneg (es : List (Int × GenerationEvent)) : 0 ≤ textLength es := by
  induction es
  case nil => rfl
  case cons e es ih =>
    rcases e with ⟨_, e⟩
    cases e <;> simp only [textLength] <;> omega

theorem deltas_of_types {es : List EventRow} (h : ∀ e ∈ es, e.type = e.payload.type) :
    (es.filter (·.type = .delta)).map (·.payload) =
      ((es.map fun e => (e.sequence, e.payload)).filterMap deltaText?).map .delta := by
  induction es
  case nil => rfl
  case cons e es ih =>
    have he := h e <| .head _
    have ih := ih fun e hm => h e <| .tail _ hm
    rw [List.filter_cons, List.map_cons, List.filterMap_cons, he]
    cases hp : e.payload <;> simp only [deltaText?, GenerationEvent.type, decide_true, reduceCtorEq,
      decide_false, Bool.false_eq_true, ↓reduceIte, List.map_cons, ih, hp]

-- The events of a sound log stand in the order of their sequences.
theorem Sound.deltaPayloads {d : Db} {run : RunRow} (h : (d.runLog run).Sound) (hc : d.Consistent) :
    d.deltaPayloads run.runId = (d.runLog run).texts.map .delta := by
  have hs : (d.eventsOf run.runId).map (·.sequence) =
      (List.range (d.eventsOf run.runId).length).map Int.ofNat := by
    simpa [Db.runLog, RunLog.of, Function.comp_def] using h.sequences
  have hp : (d.eventsOf run.runId).Pairwise (·.sequence ≤ ·.sequence) := by
    rw [← List.pairwise_map (f := EventRow.sequence) (R := (· ≤ ·)), hs, List.pairwise_map]
    exact List.pairwise_lt_range.imp fun h => Int.ofNat_le.mpr h.le
  have hf : ((d.eventsOf run.runId).filter (·.type = .delta)).Pairwise fun e f =>
      decide (e.sequence ≤ f.sequence) = true := by
    simpa using hp.filter _
  rw [Db.deltaPayloads, List.mergeSort_of_pairwise hf]
  exact deltas_of_types fun e he => hc.type e (Db.mem_eventsOf.mp he).left

end RunLog

-- A run that is to be executed, and the character whose chat it belongs to.
structure Job where
  runId       : String
  isUuid      : Wire.isUuid runId
  plan        : RunPlan
  characterId : String

-- Where the executor stands: `run` is the row of the job, which goes on with `texts` committed.
structure At (job : Job) (texts : List String) (cancelled : Bool) (d : Db) (run : RunRow) :
    Prop where
  row        : d.runs.get? job.runId = some run
  live       : ¬isTerminal run.status
  sound      : (d.runLog run).Sound
  consistent : d.Consistent
  plan       : run.plan = job.plan
  chat       : (d.chats.get? job.plan.chatId).map (·.characterId) = some job.characterId
  texts      : (d.runLog run).texts = texts
  cancelled  : run.cancelRequested = cancelled

-- The run has come to an end, and its log says so.
def Ended (d : Db) (runId : String) : Prop :=
  ∃ r, d.runs.get? runId = some r ∧
    (r.status = .completed ∨ r.status = .failed ∨ r.status = .cancelled) ∧
    ∃ e ∈ d.eventsOf runId, e.type = .completed ∨ e.type = .failed ∨ e.type = .cancelled

theorem Live.not_ended (h : Live d i) : ¬Ended d i := by
  rintro ⟨r, hr, hs, -⟩
  refine h r hr ?_
  rcases hs with hs | hs | hs <;> simp [hs, isTerminal]

namespace At

variable {job : Job} {texts : List String} {c : Bool} {d d' : Db} {run : RunRow}

theorem id_eq (h : At job texts c d run) : run.runId = job.runId :=
  Table.get?_key_eq h.row

theorem current (h : At job texts c d run) : d.runs.get? run.runId = some run :=
  h.id_eq.symm ▸ h.row

theorem known (h : At job texts c d run) : Known d run :=
  .of_get? h.row

theorem is_live (h : At job texts c d run) : Live d job.runId := fun r hr => by
  obtain rfl := Option.some.inj <| h.row.symm.trans hr
  exact h.live

theorem isUuid_chatId (h : At job texts c d run) : isUuid run.chatId :=
  h.consistent.chat run <| Table.mem_of_get? h.row

theorem of_journal_eq {w t : World} (h : At job texts c w.db run)
    (hj : t.journal = w.journal) : At job texts c t.db run :=
  World.db_eq hj ▸ h

-- Without a request for a cancel nothing stands in the way of the run.
theorem isCancellable (h : At job texts false d run) : isCancellable run.status := by
  have hc := h.sound.cancelling
  have ht := h.live
  have hn : run.status ≠ .cancelling := fun hs => by simpa [h.cancelled, Db.runLog, RunLog.of] using hc hs
  cases hs : run.status <;> simp_all [Kernel.isCancellable, isTerminal]

-- A step that does not end the run and leaves the rest to be checked.
theorem hit (h : At job texts c d run) (hh : Hit d d' run act) (ha : act.isQuiet)
    (hd : act ≠ .discard) : ∃ r, RunLog.Step act (d.runLog run) (d'.runLog r) ∧
      At job (d'.runLog r).texts r.cancelRequested d' r := by
  have ⟨r, hr, hs⟩ := hh.row
  refine ⟨r, hs.step, h.id_eq ▸ hr, hs.step.live ha h.live, hs.step.preserves_sound h.sound hd,
    hh.legal.consistent h.consistent, hs.plan.trans h.plan, ?_, rfl, rfl⟩
  rw [hh.legal.chats nofun]
  exact h.chat

theorem advance (h : At job texts c d run) (hh : Hit d d' run (.advance s)) :
    ∃ r, At job texts c d' r := by
  have ⟨r, hs, ha⟩ := h.hit hh rfl nofun
  have hq : r.cancelRequested = run.cancelRequested := hs.advance_status.right.right
  rw [hs.texts_advance, h.texts, hq, h.cancelled] at ha
  exact ⟨r, ha⟩

theorem delta (h : At job texts false d run) (hh : Hit d d' run (.delta text)) :
    ∃ r, At job (texts ++ [text]) false d' r := by
  have ⟨r, hs, ha⟩ := h.hit hh rfl nofun
  have hq : r.cancelRequested = run.cancelRequested := hs.delta_status.right
  rw [hs.texts_delta, h.texts, hq, h.cancelled] at ha
  exact ⟨r, ha⟩

theorem cancel (h : At job texts c d run) (hh : Hit d d' run .cancel) :
    ∃ r, At job texts true d' r := by
  have ⟨r, hs, ha⟩ := h.hit hh rfl nofun
  have hq : r.cancelRequested = true := hs.cancel_status.right
  rw [hs.texts_cancel, h.texts, hq] at ha
  exact ⟨r, ha⟩

theorem ended (h : At job texts c d run) (hh : Hit d d' run (.finish s)) :
    Ended d' job.runId := by
  obtain ⟨r, hr, hs⟩ := hh.row
  rw [h.id_eq] at hr
  have hc := hh.legal.consistent h.consistent
  obtain ⟨e, he, hstatus, hmem⟩ : ∃ e, RunLog.terminalStatus e = some s ∧ r.status = s ∧
      ∃ n, (n, e) ∈ (d'.runLog r).entries := by
    have hstep := hs.step
    generalize hl : d'.runLog r = l' at hstep
    have hst : r.status = l'.status := hl ▸ rfl
    cases hstep
    case finish e he _ =>
      exact ⟨e, he, hst, (d.runLog run).touch.lastEventSequence + 1, by simp [RunLog.append]⟩
  obtain ⟨n, hmem⟩ := hmem
  obtain ⟨row, hrow, heq⟩ := List.mem_map.mp hmem
  rw [Table.get?_key_eq hr] at hrow
  have htype := hc.type row (Db.mem_eventsOf.mp hrow).left
  obtain ⟨-, rfl⟩ := Prod.mk.inj heq
  refine ⟨r, hr, ?_, row, hrow, ?_⟩
  · subst hstatus
    cases hp : row.payload <;> simp_all [RunLog.terminalStatus]
  · rw [htype]
    cases hp : row.payload <;> simp_all [RunLog.terminalStatus, GenerationEvent.type]

end At

namespace Kernel.Ends

variable {job : Job} {texts : List String} {c : Bool} {w : World} {run : RunRow} {E : World → Prop}

-- A transaction that starts with a compare-and-swap on the current row.
theorem cas {body : Tx α} {label : α → Label} {applied : α → Prop}
    (h : Tx.Ensures body (fun a d => Outcome w.db run act (applied a) d) w.db)
    (hr : At job texts c w.db run) :
    Ends (Kernel.transaction context label body)
      (fun a t => applied a ∧ Hit w.db t.db run act) E w :=
  (transaction h).mono (fun _ _ _ ho => ho.current hr.current) fun _ _ h => h

theorem eventPayload (h : checkGenerationEvent e "" = []) :
    Ends (eventPayload e) (fun p t => t.journal = w.journal ∧ p = e) E w :=
  (validate h).bind fun _ _ _ hj => pure ⟨hj, rfl⟩

theorem terminalCancelled (h : At job texts c w.db run) :
    Ends (terminalCancelled run leaseOwner) (fun _ t => Ended t.db job.runId) E w := by
  refine (eventPayload rfl).bind fun payload t₁ _ ⟨hj₁, hp⟩ => ?_
  subst hp
  refine now.bind fun updatedAt t₂ _ ⟨hj₂, _⟩ => ?_
  refine leaseExpires.bind fun lease t₃ _ hj₃ => ?_
  have h := h.of_journal_eq <| hj₃.trans <| hj₂.trans hj₁
  refine (cas (terminalCancelledTx_spec h.known h.live) h).bind fun applied t₄ _ ⟨ha, hh⟩ => ?_
  rw [if_pos ha]
  exact pure <| h.ended hh

theorem terminalFailed (h : At job texts c w.db run)
    (he : checkGenerationEvent (.failed error) "" = []) :
    Ends (terminalFailed run error leaseOwner) (fun _ t => Ended t.db job.runId) E w := by
  refine (eventPayload he).bind fun payload t₁ _ ⟨hj₁, hp⟩ => ?_
  subst hp
  refine now.bind fun updatedAt t₂ _ ⟨hj₂, _⟩ => ?_
  refine leaseExpires.bind fun lease t₃ _ hj₃ => ?_
  have h := h.of_journal_eq <| hj₃.trans <| hj₂.trans hj₁
  refine (cas (terminalFailedTx_spec h.known h.live) h).bind fun applied t₄ _ ⟨ha, hh⟩ => ?_
  rw [if_pos ha]
  exact pure <| h.ended hh

theorem reloadJob (h : At job texts c w.db run) :
    Ends (Kernel.reload job.runId) (fun r t => t.journal = w.journal ∧ r = run) E w :=
  reload h.row

theorem casStatus (h : At job texts c w.db run) (hs : ¬isTerminal s) (hn : s ≠ .cancelling) :
    Ends (casStatus run s leaseOwner) (fun o t => ∃ r, o = .proceed r ∧ At job texts c t.db r) E w := by
  refine now.bind fun updatedAt t₁ _ ⟨hj₁, _⟩ => ?_
  refine leaseExpires.bind fun lease t₂ _ hj₂ => ?_
  have h := h.of_journal_eq <| hj₂.trans hj₁
  refine (cas (advanceTx_spec h.known h.live hs hn) h).bind fun changed t₃ _ ⟨ha, hh⟩ => ?_
  have ⟨r, hr⟩ := h.advance hh
  rw [if_pos ha, h.id_eq]
  refine (reloadJob hr).bind fun run' t₄ _ ⟨hj₄, he⟩ => ?_
  exact pure ⟨r, congrArg _ he, hr.of_journal_eq hj₄⟩

-- Only the wire check stands between a delta and its commit.
theorem commitDelta (h : At job texts false w.db run) :
    Ends (commitDelta run text i leaseOwner)
      (fun o t => utf16Length text ≤ maxDeltaLength ∧
        ∃ r, o = some r ∧ At job (texts ++ [text]) false t.db r)
      (fun t => maxDeltaLength < utf16Length text ∧ t.journal = w.journal) w := by
  by_cases hl : utf16Length text ≤ maxDeltaLength
  case neg =>
    refine bind (Q := fun _ _ => False) ?_ fun _ _ _ h => h.elim
    refine validate_fails (fun hn => hl <| checkMaxLength_eq_nil_iff.mp hn) ?_
    exact ⟨by omega, rfl⟩
  case pos =>
    have hd : checkGenerationEvent (.delta text) "" = [] := checkMaxLength_eq_nil_iff.mpr hl
    refine (eventPayload hd).bind fun payload t₁ _ h₁ => ?_
    obtain ⟨hj₁, rfl⟩ := h₁
    have hcheck : Ends (checkpointPayload run text i) (fun p t => t.journal = t₁.journal ∧
        p = if isCheckpoint i then
          some (.checkpoint (endSequence run i) (run.partialLength + text.utf8ByteSize)) else none)
        (fun t => maxDeltaLength < utf16Length text ∧ t.journal = w.journal) t₁ := by
      unfold checkpointPayload
      split
      case isFalse => exact pure ⟨rfl, rfl⟩
      case isTrue hi =>
        have hlast : run.lastEventSequence = _ := h.sound.last
        have hlen : run.partialLength = _ := h.sound.partialLength
        have hpos := RunLog.textLength_nonneg (w.db.runLog run).entries
        refine (eventPayload ?_).bind fun p _ _ h => pure ⟨h.left, congrArg some h.right⟩
        simp only [checkGenerationEvent, List.append_eq_nil_iff, checkMinimum_eq_nil_iff]
        simp only [endSequence, hi, if_pos]
        omega
    refine hcheck.bind fun checkpoint t₂ _ h₂ => ?_
    obtain ⟨hj₂, hp⟩ := h₂
    refine now.bind fun updatedAt t₃ _ h₃ => ?_
    refine leaseExpires.bind fun lease t₄ _ hj₄ => ?_
    have h := h.of_journal_eq <| hj₄.trans <| h₃.left.trans <| hj₂.trans hj₁
    refine (cas (deltaTx_spec h.known h.isCancellable h.cancelled hp) h).bind
      fun applied t₅ _ h₅ => ?_
    obtain ⟨r, hr⟩ := h.delta h₅.right
    rw [if_pos h₅.left, h.id_eq]
    refine sendNotice.bind fun _ t₆ _ hj₆ => ?_
    refine (reloadJob <| hr.of_journal_eq hj₆).bind fun run' t₇ _ h₇ => ?_
    exact pure ⟨hl, r, congrArg _ h₇.right, hr.of_journal_eq <| h₇.left.trans hj₆⟩

theorem concatDeltaText (h : At job texts c w.db run) :
    Ends (concatDeltaText job.runId)
      (fun full t => t.journal = w.journal ∧ full = String.join texts) E w := by
  refine bind (Q := fun ts t => t.journal = w.journal ∧ ts = texts) ?_ fun ts t _ ⟨hj, ht⟩ => ?_
  · refine query.bind fun payloads t _ ⟨hj, hp⟩ => ?_
    have hm : (texts.map GenerationEvent.delta).mapM deltaText = Except.ok texts := by
      clear h
      induction texts
      case nil            => rfl
      case cons text _ ih => rw [List.map_cons, List.mapM_cons, ih]; rfl
    rw [hp, ← h.id_eq, h.sound.deltaPayloads h.consistent, h.texts, hm]
    exact pure ⟨hj, rfl⟩
  · exact pure ⟨hj, congrArg _ ht⟩

theorem nextMessageSequence_nonneg (d : Db) (chatId : String) : 0 ≤ d.nextMessageSequence chatId := by
  have hm (xs : List Int) (n : Int) (hn : -1 ≤ n) : -1 ≤ xs.foldl max n := by
    induction xs generalizing n
    case nil          => exact hn
    case cons x xs ih => exact ih _ <| le_max_of_le_left hn
  have := hm ((d.messages.rows.filter (·.chatId = chatId)).map (·.sequence)) (-1) le_rfl
  unfold Db.nextMessageSequence
  omega

-- Only the length of the message stands between a run and its completion.
theorem terminalCompleted (h : At job texts c w.db run) :
    Ends (terminalCompleted run full leaseOwner)
      (fun _ t => utf16Length full ≤ maxMessageLength ∧ Ended t.db job.runId)
      (fun t => maxMessageLength < utf16Length full ∧ t.journal = w.journal) w := by
  refine newId.bind fun messageId t₁ _ ⟨hj₁, hu⟩ => ?_
  refine now.bind fun createdAt t₂ _ ⟨hj₂, hd⟩ => ?_
  refine query.bind fun sequence t₃ _ ⟨hj₃, hs⟩ => ?_
  have hj := hj₃.trans <| hj₂.trans hj₁
  have hs : 0 ≤ sequence := hs ▸ nextMessageSequence_nonneg _ _
  have hcheck (path : String) : checkMessageDto ⟨messageId, run.chatId, .assistant, full, createdAt,
      sequence, some run.runId⟩ path = [] ↔ utf16Length full ≤ maxMessageLength := by
    rw [checkMessageDto_eq_nil_iff]
    simp [hu, hd, hs, h.isUuid_chatId, h.id_eq, job.isUuid]
  by_cases hl : utf16Length full ≤ maxMessageLength
  case neg =>
    exact validate_fails (fun hn => hl <| (hcheck "").mp hn) ⟨by omega, hj⟩
  case pos =>
    refine (validate <| (hcheck "").mpr hl).bind fun _ t₄ _ hj₄ => ?_
    have he : checkGenerationEvent (.completed ⟨messageId, run.chatId, .assistant, full, createdAt,
        sequence, some run.runId⟩) "" = [] := (hcheck _).mpr hl
    refine (eventPayload he).bind fun payload t₅ _ ⟨hj₅, hp⟩ => ?_
    subst hp
    refine leaseExpires.bind fun lease t₆ _ hj₆ => ?_
    have h := h.of_journal_eq <| hj₆.trans <| hj₅.trans <| hj₄.trans hj
    refine (cas (terminalCompletedTx_spec h.known h.live) h).bind fun applied t₇ _ ⟨ha, hh⟩ => ?_
    rw [if_pos ha]
    exact pure ⟨hl, h.ended hh⟩

end Kernel.Ends
