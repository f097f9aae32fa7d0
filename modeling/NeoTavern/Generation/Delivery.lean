import NeoTavern.Generation.Cancellation
import NeoTavern.Generation.History

open Wire Storage Kernel Proc

-- What becomes of an attempt of a provider: the deltas that get into the log, whether the wire check
-- refuses one, and what the provider reports in the end.
structure Delivery where
  texts   : List String
  refused : Bool
  result  : Except ProviderError Usage

namespace Delivery

-- Before each delta one batch of commands is serviced. A cancel in it tells the provider to stop, and
-- so does a delta that is refused.
def ofAttempt (runId : String) : Attempt → List (List Command) → Bool → Delivery
  | .done result,    _,       _         => ⟨[], false, result⟩
  | .emit text next, batches, cancelled =>
    if cancelled || (batches.headD []).any (·.cancels runId) then
      ofAttempt runId (next .stop) batches.tail true
    else if maxDeltaLength < utf16Length text then
      { ofAttempt runId (next .stop) batches.tail false with refused := true }
    else
      let rest := ofAttempt runId (next .continue) batches.tail false
      { rest with texts := text :: rest.texts }

-- Everything that the run commits at its end passes the wire checks.
def Accepted (d : Delivery) : Prop :=
  d.refused = false ∧ (d.result.isOk → utf16Length (String.join d.texts) ≤ maxMessageLength)

instance (d : Delivery) : Decidable d.Accepted :=
  inferInstanceAs <| Decidable (_ ∧ _)

end Delivery

-- Where the sink of the provider stands.
structure Standing (job : Job) (texts : List String) (cancelled refused : Bool) (st : EmitState)
    (w : World) : Prop where
  current  : At job texts cancelled w.db st.run
  shutdown : st.shutdownSeen = false
  refused  : st.emitError.isSome = refused

namespace Kernel.Settles

variable {job : Job} {texts : List String} {c b : Bool} {w : World} {st : EmitState}
  {E : World → Prop}

section Emit

-- How the sink answers a delta once the commands before it have been serviced.
structure Answer (job : Job) (texts : List String) (text : String) (c b : Bool)
    (r : EmitStatus × EmitState) (w : World) : Prop where
  cancelled : c → r.fst = .stop ∧ Standing job texts true b r.snd w
  refused   : ¬c → maxDeltaLength < utf16Length text →
    r.fst = .stop ∧ Standing job texts false true r.snd w
  committed : ¬c → utf16Length text ≤ maxDeltaLength →
    r.fst = .continue ∧ Standing job (texts ++ [text]) false b r.snd w

theorem emitDelta (h : Standing job texts false b st w) :
    Settles (emitDelta leaseOwner text st) (Answer job texts text false b) E w := by
  have hs : Settles (commitDelta st.run text st.emitted leaseOwner) _ _ w :=
    of_ends (Ends.commitDelta h.current) fun _ => Keeps.commitDelta
  refine (attempt (Q := fun r t => (∃ e, r = .error e) ∧ maxDeltaLength < utf16Length text ∧
      t.journal = w.journal ∨ ∃ run, r = .ok (some run) ∧ utf16Length text ≤ maxDeltaLength ∧
      At job (texts ++ [text]) false t.db run)
    (hs.mono ?_ fun _ h => h.right) ?_).bind ?_ ?_
  · intro o t ⟨_, hl, run, ho, h⟩
    exact .inr ⟨run, congrArg _ ho, hl, h⟩
  · exact fun e t h => .inl ⟨⟨e, rfl⟩, h⟩
  · intro r es
    rcases r with _ | (_ | _)
    all_goals exact .pure _
  · intro r t hr
    rcases hr with ⟨⟨e, rfl⟩, hl, hj⟩ | ⟨run, rfl, hl, hrun⟩
    · have hst : Standing job texts false true { st with emitError := some e } t :=
        ⟨h.current.of_journal_eq hj, h.shutdown, rfl⟩
      exact pure ⟨nofun, fun _ _ => ⟨rfl, hst⟩, fun _ hl' => absurd hl' (by omega)⟩
    · have hst : Standing job (texts ++ [text]) false b
          { st with run := run, emitted := st.emitted + 1 } t := ⟨hrun, h.shutdown, h.refused⟩
      exact pure ⟨nofun, fun _ hl' => absurd hl' (by omega), fun _ _ => ⟨rfl, hst⟩⟩

theorem emitServiced (h : At job texts c w.db run) (hs : st.shutdownSeen = false)
    (hb : st.emitError.isSome = b) :
    Settles (emitServiced job.runId leaseOwner text st) (Answer job texts text c b) E w := by
  have hr : Settles (reload job.runId) _ (fun t => Calm w t ∧ False) w :=
    of_ends (Ends.reloadJob h) fun _ => Keeps.requireRun
  refine (attempt (Q := fun r t => r = .ok run ∧ t.journal = w.journal)
    (hr.mono ?_ fun _ h => h.right) fun _ _ => False.elim).bind ?_ ?_
  · exact fun _ _ ⟨_, hj, hr⟩ => ⟨congrArg _ hr, hj⟩
  · intro r es
    cases r
    case error => exact .pure _
    case ok    =>
      dsimp only
      split
      · exact .pure _
      · refine Keeps.commitDelta.attempt.bind fun r => ?_
        rcases r with _ | (_ | _)
        all_goals exact .pure _
  · intro r t ⟨hr, hj⟩
    subst hr
    have h := h.of_journal_eq hj
    dsimp only
    cases c
    case true =>
      rw [if_pos (by simp [h.cancelled])]
      exact pure ⟨fun _ => ⟨rfl, h, hs, hb⟩, fun hc => absurd rfl hc, fun hc => absurd rfl hc⟩
    case false =>
      have hc := h.isCancellable
      rw [if_neg (by cases hst : run.status <;> simp_all [isCancellable, isTerminal, h.cancelled])]
      exact emitDelta ⟨h, hs, hb⟩

theorem emit (h : Standing job texts c b st w)
    (hd : ∀ cmd ∈ w.inbox.headD [], cmd.spares job.characterId) :
    Settles (emit Kernel.drainPending job.runId leaseOwner text st) (fun r t =>
      Waiting w.inbox.tail w.attempts t ∧
      Answer job texts text (c || (w.inbox.headD []).any (·.cancels job.runId)) b r t) E w := by
  refine (drainPending h.current hd).bind ?_ ?_
  · intro shutdown es
    split
    · exact .pure _
    · exact Keeps.emitServiced
  · intro shutdown t ⟨hw, hs, run, hr⟩
    subst hs
    have he : Settles (Kernel.emitServiced job.runId leaseOwner text st) _ E t :=
      emitServiced hr h.shutdown h.refused
    exact (he.keeps Keeps.emitServiced hw).mono (fun _ _ h => h) fun _ h => h.right

theorem spares_split {bs : List (List Command)}
    (hd : ∀ batch ∈ bs, ∀ cmd ∈ batch, cmd.spares job.characterId) :
    (∀ cmd ∈ bs.headD [], cmd.spares job.characterId) ∧
    ∀ batch ∈ bs.tail, ∀ cmd ∈ batch, cmd.spares job.characterId := by
  cases bs
  case nil                => simp
  case cons batch batches => exact ⟨hd batch <| .head _, fun b hb => hd b <| .tail _ hb⟩

-- A whole attempt, with a batch of commands before each delta.
theorem generate {a : Attempt} (h : Standing job texts c b st w)
    (hd : ∀ batch ∈ w.inbox, ∀ cmd ∈ batch, cmd.spares job.characterId) :
    Settles (generate Kernel.drainPending job.runId leaseOwner a st) (fun r t =>
      r.fst = (Delivery.ofAttempt job.runId a w.inbox c).result ∧ ∃ c',
      Standing job (texts ++ (Delivery.ofAttempt job.runId a w.inbox c).texts) c'
        (b || (Delivery.ofAttempt job.runId a w.inbox c).refused) r.snd t) E w := by
  induction a generalizing texts c b st w
  case done result => exact pure ⟨rfl, c, by simpa [Delivery.ofAttempt] using h⟩
  case emit text next ih =>
    have ⟨hhead, htail⟩ := spares_split hd
    refine (emit h hhead).bind (fun _ _ => Keeps.generate Keeps.drainPending) ?_
    intro (status, st) t ⟨⟨hw, _⟩, ha⟩
    unfold Delivery.ofAttempt
    generalize (c || (w.inbox.headD []).any (·.cancels job.runId)) = c at ha ⊢
    rw [← hw] at htail ⊢
    cases c
    case true =>
      obtain ⟨rfl, h⟩ := ha.cancelled rfl
      exact ih .stop h htail
    case false =>
      by_cases hl : maxDeltaLength < utf16Length text
      case pos =>
        obtain ⟨rfl, h⟩ := ha.refused nofun hl
        simpa [hl] using ih .stop h htail
      case neg =>
        obtain ⟨rfl, h⟩ := ha.committed nofun (by omega)
        simpa [hl] using ih .continue h htail

end Emit
end Kernel.Settles

-- What a provider is asked on behalf of a run.
def Storage.RunPlan.request (plan : RunPlan) (adapter : ProviderAdapter) (runTimeout : Nat) :
    ProviderRequest where
  providerId := adapter.id
  model      := plan.model.getD ""
  input      := snapshotMessage plan.requestSnapshot
  runKey     := s!"{plan.chatId}|{plan.attempt}"
  deadline   := some runTimeout

-- The provider of the run, if there is one, delivers what the wire checks accept.
def Job.Deliverable (job : Job) (registry : ProviderRegistry) (runTimeout n : Nat)
    (batches : List (List Command)) (cancelled : Bool) : Prop :=
  ∀ adapter, registry.find (job.plan.provider.getD "fake") = some adapter →
    (Delivery.ofAttempt job.runId (adapter.generate n <| job.plan.request adapter runTimeout)
      batches cancelled).Accepted

namespace Kernel

variable {job : Job} {texts : List String} {c b : Bool} {w : World} {st : EmitState} {run : RunRow}
  {E : World → Prop}

theorem errorDto_accepted (h : 1 ≤ utf16Length code ∧ utf16Length code ≤ 64) :
    checkGenerationEvent (.failed <| errorDto code params) "" = [] := by
  simp [checkGenerationEvent, checkErrorDto, errorDto, checkOptional, checkLength, checkMinLength,
    checkMaxLength]
  omega

theorem providerFailure_accepted (h : providerFailure e runId provider model = some error) :
    checkGenerationEvent (.failed error) "" = [] := by
  unfold providerFailure at h
  split at h
  all_goals
    cases h
    try exact errorDto_accepted (by decide)

example : 1 ≤ utf16Length "internal" ∧ utf16Length "internal" ≤ 64 := by
  decide +kernel

-- Whatever the provider reports, only the length of the message can keep the run from its end.
theorem Ends.finishAttempt (h : At job texts c w.db run) :
    Ends (finishAttempt leaseOwner job.runId provider model result run)
      (fun _ t => Ended t.db job.runId ∧
        (result.isOk → utf16Length (String.join texts) ≤ maxMessageLength))
      (fun t => Live t.db job.runId ∧
        ¬(result.isOk → utf16Length (String.join texts) ≤ maxMessageLength)) w := by
  have notice {w : World} {n : Int} {Q : Db → Prop} {E : World → Prop} (h : Q w.db) :
      Ends (sendTerminal job.runId n) (fun _ t => Q t.db) E w :=
    sendNotice.mono (fun _ _ _ hj => World.db_eq hj ▸ h) fun _ _ h => h
  unfold Kernel.finishAttempt
  split
  case h_1 usage =>
    refine (concatDeltaText h).bind fun full t₁ _ ⟨hj, hf⟩ => ?_
    subst hf
    have h := h.of_journal_eq hj
    refine ((terminalCompleted h).mono (fun _ _ _ h => h) ?_).bind fun n t₂ _ ⟨hl, he⟩ => ?_
    · intro t _ ⟨hl, hj⟩
      exact ⟨World.db_eq hj ▸ h.is_live, fun hn => absurd (hn rfl) (by omega)⟩
    · exact notice (Q := fun d => Ended d job.runId ∧ _) ⟨he, fun _ => hl⟩
  case h_2 e =>
    have hn : (Except.error e : Except ProviderError Usage).isOk = true →
        utf16Length (String.join texts) ≤ maxMessageLength := by simp [Except.isOk, Except.toBool]
    split
    case h_1 =>
      refine (terminalCancelled h).bind fun n t₁ _ he => ?_
      exact notice (Q := fun d => Ended d job.runId ∧ _) ⟨he, hn⟩
    case h_2 error he =>
      refine (terminalFailed h <| providerFailure_accepted he).bind fun n t₁ _ he => ?_
      exact notice (Q := fun d => Ended d job.runId ∧ _) ⟨he, hn⟩

theorem Calm.waiting (h : Calm w t) (hw : Waiting bs n w) : Waiting bs n t :=
  ⟨h.inbox.trans hw.left, h.attempts.trans hw.right⟩

namespace Settles

theorem unavailable (h : At job texts c w.db run) :
    Settles (terminalFailed run (errorDto "PROVIDER_UNAVAILABLE" params) leaseOwner >>=
      sendTerminal job.runId) (fun _ t => Ended t.db job.runId) (fun _ => False) w := by
  have he : checkGenerationEvent (.failed <| errorDto "PROVIDER_UNAVAILABLE" params) "" = [] :=
    errorDto_accepted (by decide)
  refine bind (Q := fun _ t => Ended t.db job.runId) ?_ (fun _ _ => Keeps.sendNotice) ?_
  · exact (of_ends (Ends.terminalFailed h he) fun _ => Keeps.terminalFailed).mono
      (fun _ _ h => h.right) fun _ h => h.right
  · exact fun _ _ he => modify (fun _ => ⟨rfl, rfl, rfl, rfl⟩) he

-- What follows the attempt. A delta that was refused leaves the run where it is.
theorem endAttempt (h : Standing job texts c b st w) :
    Settles (endAttempt leaseOwner job.runId provider model result st)
      (fun _ t => Ended t.db job.runId ∧ b = false ∧
        (result.isOk → utf16Length (String.join texts) ≤ maxMessageLength))
      (fun t => Live t.db job.runId ∧ ¬(b = false ∧
        (result.isOk → utf16Length (String.join texts) ≤ maxMessageLength))) w := by
  have hb := h.refused
  unfold Kernel.endAttempt
  split
  case h_1 e he =>
    have hb : b = true := by simpa [he] using hb.symm
    exact ⟨fun _ => ⟨h.current.is_live, by simp [hb]⟩, fun _ => .fail _⟩
  case h_2 hn =>
    have hb : b = false := by simpa [hn] using hb.symm
    rw [if_neg (by simp [h.shutdown])]
    refine (of_ends (Ends.finishAttempt h.current) fun _ => Keeps.finishAttempt).mono ?_ ?_
    · exact fun _ _ ⟨_, he, hl⟩ => ⟨he, hb, hl⟩
    · exact fun _ ⟨_, he, hl⟩ => ⟨he, fun h => hl h.right⟩

variable {bs : List (List Command)} {registry : ProviderRegistry} {leaseOwner : String}
  (hd : ∀ batch ∈ bs, ∀ cmd ∈ batch, cmd.spares job.characterId)

include hd

theorem runProvider (h : At job [] c w.db run) (hw : Waiting bs n w) :
    Settles (runProvider leaseOwner Kernel.drainPending job.runId registry runTimeout run)
      (fun _ t => Ended t.db job.runId ∧ job.Deliverable registry runTimeout n bs c)
      (fun t => Live t.db job.runId ∧ ¬job.Deliverable registry runTimeout n bs c) w := by
  have hp : run.plan = job.plan := h.plan
  have hname : run.provider = job.plan.provider := congrArg RunPlan.provider hp
  unfold Kernel.runProvider Job.Deliverable
  dsimp only
  rw [hname]
  split
  case h_1 hnone =>
    exact (unavailable h).mono (fun _ t he => ⟨he, by simp [hnone]⟩) fun _ => False.elim
  case h_2 adapter ha =>
    have hreq : ({
        providerId := adapter.id
        model      := run.model.getD ""
        input      := snapshotMessage run.requestSnapshot
        runKey     := s!"{run.chatId}|{run.attempt}"
        deadline   := some runTimeout
      } : ProviderRequest) = job.plan.request adapter runTimeout := hp ▸ rfl
    rw [hreq]
    have hn {E} : Settles nextAttempt (fun m t => m = n ∧ t.journal = w.journal ∧ t.inbox = bs)
      E w := ⟨fun _ => ⟨hw.right, rfl, hw.left⟩, fun _ => ⟨fun _ h => h⟩⟩
    refine hn.bind ?_ fun m t ⟨hm, hj, hi⟩ => ?_
    · exact fun _ _ => (Keeps.generate Keeps.drainPending).bind fun _ => Keeps.endAttempt
    · subst hm hi
      have hst : Standing job [] c false { run } t := ⟨h.of_journal_eq hj, rfl, rfl⟩
      refine (generate hst hd).bind ?_ fun (result, st) u ⟨hr, c', hst⟩ => ?_
      · exact fun _ _ => Keeps.endAttempt
      · subst hr
        refine (endAttempt hst).mono ?_ ?_
        · rintro _ _ ⟨he, hb, hl⟩
          refine ⟨he, fun adapter' ha' => ?_⟩
          cases ha.symm.trans ha'
          exact ⟨by simpa using hb, by simpa using hl⟩
        · rintro _ ⟨he, hn⟩
          refine ⟨he, fun h => hn ?_⟩
          have := h adapter ha
          exact ⟨by simpa using this.left, by simpa using this.right⟩

theorem executeRun (h : At job [] c w.db run) (hw : Waiting bs n w) :
    Settles (executeRun leaseOwner Kernel.drainPending job.runId registry runTimeout)
      (fun _ t => Ended t.db job.runId ∧ job.Deliverable registry runTimeout n bs c)
      (fun t => Live t.db job.runId ∧ ¬job.Deliverable registry runTimeout n bs c) w := by
  have hr {E} : Settles (reload job.runId) (fun r t => Calm w t ∧ t.journal = w.journal ∧ r = run)
    E w := (of_ends (Ends.reloadJob h) fun _ => Keeps.requireRun).mono (fun _ _ h => h)
      fun _ h => h.right
  have hs {E : World → Prop} {w run} {s : GenerationStatus} (h : At job [] c w.db run)
      (hs : ¬isTerminal s) (hn : s ≠ .cancelling) : Settles (casStatus run s leaseOwner)
        (fun o t => Calm w t ∧ ∃ r, o = .proceed r ∧ At job [] c t.db r) E w :=
    (of_ends (Ends.casStatus h hs hn) fun _ => Keeps.casStatus).mono (fun _ _ h => h)
      fun _ h => h.right
  have hp {es} : Keeps (Failed es) (Kernel.runProvider leaseOwner Kernel.drainPending job.runId
    registry runTimeout run) := Keeps.runProvider
  refine hr.bind ?_ fun r t₁ ⟨hc₁, hj, he⟩ => ?_
  · exact fun _ _ => Keeps.casStatus.bind fun _ => Keeps.proceed fun _ =>
      Keeps.casStatus.bind fun _ => Keeps.proceed fun _ => Keeps.runProvider
  subst he
  have hw := hc₁.waiting hw
  refine (hs (h.of_journal_eq hj) (by decide) (by decide)).bind ?_ fun o t₂ ⟨hc₂, r, ho, h⟩ => ?_
  · exact fun _ _ => Keeps.proceed fun _ => Keeps.casStatus.bind fun _ =>
      Keeps.proceed fun _ => Keeps.runProvider
  subst ho
  have hw := hc₂.waiting hw
  refine (hs h (by decide) (by decide)).bind ?_ fun o t₃ ⟨hc₃, r, ho, h⟩ => ?_
  · exact fun _ _ => Keeps.proceed fun _ => Keeps.runProvider
  subst ho
  exact runProvider hd h <| hc₃.waiting hw

omit hd in
theorem executeStream (h : At job [] false w.db run)
    (hd : ∀ batch ∈ w.inbox, ∀ cmd ∈ batch, cmd.spares job.characterId) :
    Settles (executeStream leaseOwner Kernel.drainPending job.runId registry runTimeout)
      (fun _ t => Ended t.db job.runId ∧ job.Deliverable registry runTimeout w.attempts w.inbox.tail
        ((w.inbox.headD []).any (·.cancels job.runId)))
      (fun t => Live t.db job.runId ∧ ¬job.Deliverable registry runTimeout w.attempts w.inbox.tail
        ((w.inbox.headD []).any (·.cancels job.runId))) w := by
  have ⟨hhead, htail⟩ := spares_split hd
  have hr {E} : Settles (reload job.runId) (fun r t => Calm w t ∧ t.journal = w.journal ∧ r = run)
    E w := (of_ends (Ends.reloadJob h) fun _ => Keeps.requireRun).mono (fun _ _ h => h)
      fun _ h => h.right
  refine hr.bind ?_ fun r t₁ ⟨hc, hj, he⟩ => ?_
  · refine fun _ _ => Keeps.drainPending.bind fun _ => ?_
    split
    · exact Keeps.commitShutdownProgress
    · exact Keeps.executeRun
  subst he
  have h := h.of_journal_eq hj
  refine (drainPending h (hc.inbox ▸ hhead)).bind ?_ fun shutdown t₂ ⟨hw, hs, r, h⟩ => ?_
  · intro _ _
    split
    · exact Keeps.commitShutdownProgress
    · exact Keeps.executeRun
  subst hs
  rw [hc.inbox, hc.attempts] at hw
  rw [hc.inbox, Bool.false_or] at h
  exact executeRun htail h hw

end Settles
end Kernel

theorem Kernel.Started.at {d : Db} (h : Started d job.runId run) (hc : d.Consistent)
    (hp : run.plan = job.plan)
    (hd : (d.chats.get? run.chatId).map (·.characterId) = some job.characterId) :
    At job [] false d run where
  row        := h.row
  live       := h.live run h.row
  sound      := h.log ▸ RunLog.start_sound
  consistent := hc
  plan       := hp
  chat       := by rwa [← hp]
  texts      := h.log ▸ rfl
  cancelled  := congrArg RunLog.cancelRequested h.log

namespace Kernel.Runs

variable {job : Job} {texts : List String} {c : Bool} {w : World} {run : RunRow} {E : World → Prop}

theorem casStatus (hh : Healthy w) (h : At job texts c w.db run) (hs : ¬isTerminal s)
    (hn : s ≠ .cancelling) :
    Runs (casStatus run s leaseOwner) (fun o t => ∃ r, o = .proceed r ∧ At job texts c t.db r) E w := by
  refine (now hh).bind fun updatedAt t₁ hs₁ hj₁ => ?_
  refine (leaseExpires hs₁.healthy).bind fun lease t₂ hs₂ hj₂ => ?_
  have h := h.of_journal_eq <| hj₂.trans hj₁
  have htotal : Proc.wp (advanceTx run s leaseOwner lease updatedAt) (fun _ _ => True)
    (fun _ _ => False) t₂.db := by simp [advanceTx, Tx.casRun, Tx.updateRuns]
  have htx := wp_mono (wp_and (advanceTx_spec h.known h.live hs hn) htotal) (fun _ _ h => h.left)
    fun _ _ h => h.right
  refine (transaction hs₂.healthy htx).bind fun changed t₃ hs₃ ho => ?_
  obtain ⟨ha, hit⟩ := ho.current h.current
  obtain ⟨r, hr⟩ := h.advance hit
  rw [if_pos ha, h.id_eq]
  refine (reload hs₃.healthy hr.row).bind fun run' t₄ hs₄ h₄ => ?_
  exact pure hs₄.healthy ⟨r, congrArg _ h₄.right, hr.of_journal_eq h₄.left⟩

theorem drainPending (hh : Healthy w) (hi : w.inbox = []) :
    Runs drainPending (fun shutdown t => shutdown = false ∧ t.journal = w.journal) E w := by
  have hrun : Kernel.drainPending w =
    drainCommands (w.inbox.headD []) { w with inbox := w.inbox.tail } := rfl
  constructor
  unfold Proc.wp
  rw [hrun, hi]
  exact ⟨⟨hh, rfl, hi.symm⟩, rfl, rfl⟩

theorem attempt {p : KernelM α} {Q : Except KernelError α → World → Prop}
    (h : Runs p (fun a => Q (.ok a)) (fun _ => False) w) : Runs (Proc.attempt p) Q E w :=
  ⟨wp_attempt.mpr <| wp_mono h.wp (fun _ _ h => h) fun _ _ h => h.right.elim⟩

example : utf16Length "Hello" ≤ maxDeltaLength := by
  decide +kernel

theorem commitDelta_refused (hl : maxDeltaLength < utf16Length text) :
    ∃ e, commitDelta run text i leaseOwner = Proc.fail e := by
  have hc : checkGenerationEvent (.delta text) "" ≠ [] := fun hn => by
    have := checkMaxLength_eq_nil_iff.mp hn
    omega
  unfold commitDelta eventPayload validate
  split
  case h_1 hn => exact absurd hn hc
  case h_2    => exact ⟨_, rfl⟩

theorem emitDelta_refused (hl : maxDeltaLength < utf16Length text) :
    ∃ e, emitDelta leaseOwner text st = Pure.pure (.stop, { st with emitError := some e }) := by
  have ⟨e, he⟩ : ∃ e, commitDelta st.run text st.emitted leaseOwner = Proc.fail e :=
    commitDelta_refused hl
  refine ⟨e, ?_⟩
  unfold emitDelta
  rw [he]
  rfl

variable (hl : maxDeltaLength < utf16Length text)

include hl

theorem emit_refused (hh : Healthy w) (h : At job texts false w.db st.run) (hi : w.inbox = []) :
    Runs (emit Kernel.drainPending job.runId leaseOwner text st) (fun r t => r.fst = .stop ∧
      r.snd.emitError.isSome ∧ At job texts false t.db st.run) E w := by
  refine (drainPending hh hi).bind fun shutdown t hs ht => ?_
  obtain ⟨rfl, hj⟩ := ht
  have h := h.of_journal_eq hj
  refine (attempt (Q := fun r u => r = .ok st.run ∧ u.journal = t.journal) ?_).bind ?_
  · exact ⟨wp_mono (reload hs.healthy h.row).wp
      (fun _ _ h => ⟨h.left, congrArg _ h.right.right, h.right.left⟩) fun _ _ h => h⟩
  · rintro r u hs ⟨hr, hj⟩
    subst hr
    have h := h.of_journal_eq hj
    have hc := h.isCancellable
    dsimp only
    rw [if_neg (by cases hst : st.run.status <;> simp_all [isCancellable, isTerminal, h.cancelled])]
    obtain ⟨e, he⟩ : ∃ e, emitDelta leaseOwner text { st with run := st.run } = _ :=
      emitDelta_refused hl
    rw [he]
    exact pure hs.healthy ⟨rfl, rfl, h⟩

-- A run whose first delta is refused stays where it is.
theorem executeStream_refused (hh : Healthy w) (h : At job [] false w.db run) (hi : w.inbox = [])
    (ha : registry.find (job.plan.provider.getD "fake") = some adapter)
    (hg : ∀ n request, adapter.generate n request = .emit text next)
    (hn : next .stop = .done result) :
    Runs (executeStream leaseOwner Kernel.drainPending job.runId registry runTimeout)
      (fun _ _ => False) (fun t => ∃ r, At job [] false t.db r) w := by
  refine (reload hh h.row).bind fun r t₁ hs₁ ⟨hj₁, he₁⟩ => ?_
  subst he₁
  have hi := hs₁.inbox.trans hi
  refine (drainPending hs₁.healthy hi).bind fun shutdown t₂ hs₂ ⟨hb, hj₂⟩ => ?_
  subst hb
  have hi := hs₂.inbox.trans hi
  have h := h.of_journal_eq <| hj₂.trans hj₁
  refine (reload hs₂.healthy h.row).bind fun r' t₃ hs₃ ⟨hj₃, he₃⟩ => ?_
  subst he₃
  have hi := hs₃.inbox.trans hi
  have h := h.of_journal_eq hj₃
  refine (casStatus hs₃.healthy h (by decide) (by decide)).bind fun o t₄ hs₄ ⟨r, ho, h⟩ => ?_
  subst ho
  have hi := hs₄.inbox.trans hi
  refine (casStatus hs₄.healthy h (by decide) (by decide)).bind fun o t₅ hs₅ ⟨r, ho, h⟩ => ?_
  subst ho
  have hi := hs₅.inbox.trans hi
  have hname : r.provider = job.plan.provider := congrArg RunPlan.provider h.plan
  unfold proceed runProvider
  dsimp only
  rw [hname, ha]
  dsimp only
  refine bind (Q := fun _ t => t.journal = t₅.journal) ⟨⟨hs₅.healthy, rfl, rfl⟩, rfl⟩ ?_
  intro n t₆ hs₆ hj₆
  have hi := hs₆.inbox.trans hi
  rw [hg]
  have h := h.of_journal_eq hj₆
  refine bind (Q := fun r' t => r'.snd.emitError.isSome ∧ At job [] false t.db r) ?_ ?_
  · refine (emit_refused hl hs₆.healthy h hi).bind fun (status, st) t₇ hs₇ ⟨hstop, he, h⟩ => ?_
    subst hstop
    dsimp only
    rw [hn]
    exact pure hs₇.healthy ⟨he, h⟩
  · intro (result, st) t₈ hs₈ ⟨he, h⟩
    have ⟨e, he⟩ := Option.isSome_iff_exists.mp he
    have hend {provider model : String} :
        endAttempt leaseOwner job.runId provider model result st = Proc.fail e := by
      rw [endAttempt, he]
    dsimp only
    rw [hend]
    exact ⟨⟨hs₈.healthy, rfl, rfl⟩, r, h⟩

end Kernel.Runs

-- The job that a run is from its start on.
theorem streamStart_at {w t : World} (hw : Reachable w.journal)
    (hs : streamStart op leaseOwner w = (.ok streamId, t))
    (hr : t.db.runs.get? streamId = some run) : ∃ job : Job, job.runId = streamId ∧
      job.plan = run.plan ∧ (∃ chat, t.db.chats.get? run.chatId = some chat ∧
        chat.characterId = job.characterId) ∧ At job [] false t.db run := by
  have ⟨_, _, _, _, hc⟩ := hw.grows
  have hm : Moves (KernelStep False) (streamStart op leaseOwner) _ w := Moves.streamStart hc
  have ⟨hg, run', hst⟩ := (Proc.wp_of_ok hs).mp hm.wp
  obtain rfl : run = run' := Option.some.inj <| hr.symm.trans hst.row
  have ⟨chat, hchat⟩ := Option.isSome_iff_exists.mp hst.chat
  let job : Job := ⟨streamId, hst.isUuid, run.plan, chat.characterId⟩
  have hat : At job [] false t.db run := hst.at (hg.grows.consistent hc) rfl (by simp [hchat, job])
  exact ⟨job, rfl, rfl, ⟨chat, hchat, rfl⟩, hat⟩

-- A run ends if and only if the wire checks accept what its provider delivers.
theorem run_ends {w t u : World} (hw : Reachable w.journal)
    (hs : streamStart op leaseOwner w = (.ok streamId, t))
    (hr : t.db.runs.get? streamId = some run)
    (hd : ∀ batch ∈ t.inbox, ∀ cmd ∈ batch, ∀ chat ∈ t.db.chats.get? run.chatId,
      cmd.spares chat.characterId)
    (hu : executeStream leaseOwner drainPending streamId registry runTimeout t = (result, u))
    (hf : u.failures = t.failures) :
    Ended u.db streamId ↔ ∀ adapter, registry.find (run.provider.getD "fake") = some adapter →
      (Delivery.ofAttempt streamId
        (adapter.generate t.attempts <| run.plan.request adapter runTimeout) t.inbox.tail
        ((t.inbox.headD []).any (·.cancels streamId))).Accepted := by
  have ⟨job, hi, hp, ⟨chat, hchat, hcharacter⟩, hat⟩ := streamStart_at hw hs hr
  subst hi
  have hset : Settles (executeStream leaseOwner drainPending job.runId registry runTimeout) _ _ t :=
    Settles.executeStream hat fun batch hb cmd hm => hcharacter ▸ hd batch hb cmd hm chat hchat
  rw [Job.Deliverable, hp] at hset
  rcases hset.outcome hu hf with ⟨_, _, he, h⟩ | ⟨_, hl, hn⟩
  · exact iff_of_true he h
  · exact iff_of_false hl.not_ended hn

namespace Sample

-- The run that a kernel with an empty channel has just started.
@[irreducible]
def started : World :=
  (streamStart (.start <| .object ⟨chatId, "Hello", none, none⟩) "owner" <| world []).snd

theorem streamStart_started :
    streamStart (.start <| .object ⟨chatId, "Hello", none, none⟩) "owner" (world []) =
      (.ok runId, started) := by
  have h : wp (streamStart (.start <| .object ⟨chatId, "Hello", none, none⟩) "owner")
    (fun i _ => i = runId) (fun _ _ => False) (world []) := by decide +kernel
  unfold started
  exact eq_ok_of_wp h

-- What the executor leaves behind when the provider emits the texts.
@[irreducible]
def executed (texts : List String) : World :=
  (executeStream "owner" drainPending runId [provider texts] 60000 started).snd

theorem executed_eq (texts : List String) : ∃ result,
    executeStream "owner" drainPending runId [provider texts] 60000 started =
      (result, executed texts) := by
  unfold executed
  exact ⟨_, Prod.mk.eta.symm⟩

theorem started_env : started.env = env := by
  have hk : Keeps (Within env) (streamStart (.start <| .object ⟨chatId, "Hello", none, none⟩) "owner") :=
    Keeps.streamStart
  unfold started
  exact hk.final rfl

theorem started_inbox : started.inbox = [] := by
  decide +kernel

theorem started_run : ∃ run, started.db.runs.get? runId = some run ∧ run.provider = none := by
  have hp : ((started.db.runs.get? runId).map (·.provider)) = some none := by decide +kernel
  exact Option.map_eq_some_iff.mp hp

theorem find_provider (texts : List String) :
    ProviderRegistry.find [provider texts] "fake" = some (provider texts) := by
  simp [ProviderRegistry.find, provider]

-- A delta of one character more than the wire format allows.
def long : String :=
  .ofList <| List.replicate 4097 'a'

theorem utf16Length_long : utf16Length long = 4097 :=
  utf16Length_replicate 4097 (by decide)

end Sample


open Sample

theorem run_ends_hello : Ended (executed ["Hello"]).db runId := by
  have ⟨run, hr, hp⟩ := started_run
  have ⟨result, hu⟩ := executed_eq ["Hello"]
  have hf : (executed ["Hello"]).failures = started.failures := by decide +kernel
  have ha : (Delivery.ofAttempt runId (emitting ["Hello"]) [] false).Accepted := by decide +kernel
  have hw : Reachable (world []).journal := .fresh rfl rfl
  have hi := started_inbox
  refine (run_ends hw streamStart_started hr ?_ hu hf).mpr ?_
  · rw [hi]
    exact fun _ hb => absurd hb List.not_mem_nil
  · intro adapter h
    rw [hp] at h
    obtain rfl := Option.some.inj <| (find_provider _).symm.trans h
    rw [hi]
    exact ha

-- A single delta over the bound of the wire format leaves the run streaming for good.
theorem run_stuck : ∃ run result, Reachable (world []).journal ∧
    streamStart (.start <| .object ⟨chatId, "Hello", none, none⟩) "owner" (world []) =
      (.ok runId, started) ∧
    started.inbox = [] ∧
    executeStream "owner" drainPending runId [provider [long]] 60000 started =
      (result, executed [long]) ∧
    (executed [long]).failures = started.failures ∧
    (executed [long]).db.runs.get? runId = some run ∧ ¬isTerminal run.status := by
  have ⟨run, hr, hp⟩ := started_run
  have ⟨result, hu⟩ := executed_eq [long]
  have hi := started_inbox
  have hw : Reachable (world []).journal := .fresh rfl rfl
  have ⟨job, hid, hplan, _, hat⟩ := streamStart_at hw streamStart_started hr
  have hh : Healthy started := fun n => by rw [started_env]; rfl
  have hl : maxDeltaLength < utf16Length long := by rw [utf16Length_long]; decide
  have hname : job.plan.provider = none := hplan ▸ hp
  have ha : ProviderRegistry.find [provider [long]] (job.plan.provider.getD "fake") =
    some (provider [long]) := hname ▸ find_provider _
  have hrun : Runs (executeStream "owner" drainPending job.runId [provider [long]] 60000)
      (fun _ _ => False) (fun t => ∃ r, At job [] false t.db r) started :=
    Runs.executeStream_refused hl hh hat hi ha (fun _ _ => rfl) rfl
  rw [hid] at hrun
  cases result
  case ok    => exact ((wp_of_ok hu).mp hrun.wp).right.elim
  case error =>
    have ⟨hs, r, hr⟩ := (wp_of_error hu).mp hrun.wp
    exact ⟨r, _, hw, streamStart_started, hi, hu, hs.failures, hid ▸ hr.row, hr.live⟩
