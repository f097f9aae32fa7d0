import NeoTavern.Generation.Operations

open Wire Storage Kernel Proc
open Journal (Grows)

def Kernel.Label.isExec : Label → Bool
  | .start _ | .recover => false
  | _                   => true

-- What happens while a stream executes.
structure ExecStep (strict : Prop) (d : Db) (l : Label) (d' : Db) : Prop
    extends KernelStep strict d l d' where
  exec : l.isExec

theorem ExecStep.evolves (h : ExecStep strict d l d') :
    Revision.Evolves RunRow.revision d.runs.get? d'.runs.get? :=
  h.legal.effect.evolves <| by
    rintro i rfl
    simpa [Label.isExec] using h.exec

-- What happens before the run ends.
structure QuietStep (strict : Prop) (d : Db) (l : Label) (d' : Db) : Prop
    extends ExecStep strict d l d' where
  quiet : l.isQuiet

theorem UnaryStep.quiet (h : UnaryStep d l d') : QuietStep strict d l d' where
  legal := h.legal
  exec := by
    have := h.unary
    cases l <;> simp_all [Label.isUnary, Label.isExec]
  cancel := by
    rintro - i act r rfl - -
    have := h.unary
    cases act <;> simp_all [Label.isUnary, Act.isUnary, Act.respectsCancel]
  quiet := by
    have := h.unary
    cases l
    case run _ act => cases act <;> simp_all [Label.isUnary, Act.isUnary, Label.isQuiet, Act.isQuiet]
    all_goals simp_all [Label.isUnary, Label.isQuiet]

theorem Journal.Grows.evolves {j k : Journal Label Db} (h : Grows (ExecStep strict) j k) :
    Revision.Evolves RunRow.revision j.state.runs.get? k.state.runs.get? :=
  h.relates (R := fun d d' => Revision.Evolves RunRow.revision d.runs.get? d'.runs.get?)
    (fun _ => .refl _) .trans ExecStep.evolves

theorem Journal.Grows.live {j k : Journal Label Db} (h : Grows (QuietStep strict) j k)
    (hl : Live j.state i) : Live k.state i :=
  h.preserves_state (I := (Live · i)) (fun _ _ _ hl h => h.legal.effect.live h.quiet hl) hl

theorem ExecStep.idle (strict : Prop) (d : Db) : ExecStep strict d .idle d where
  legal  := .idle d
  exec   := rfl
  cancel := by rintro - i act r h; cases h

-- A hit on a copy says whether the cancel of the run was requested.
theorem Hit.exec (h : Hit d d' run act)
    (hc : strict → act.respectsCancel ∨ run.cancelRequested = false) :
    ExecStep strict d (.run run.runId act) d' where
  legal  := h.legal
  exec   := rfl
  cancel := by
    rintro hs i act' r ⟨⟩ hr hc'
    cases h.current.symm.trans hr
    exact (hc hs).resolve_right (by simp [hc'])

-- A copy of a run that is being executed.
structure Running (d : Db) (run : RunRow) : Prop where
  known  : Known d run
  live   : Live d run.runId
  status : ¬isTerminal run.status

theorem Running.later {w t : World} (h : Running w.db run)
    (hg : Later (QuietStep strict) w t) : Running t.db run where
  known  := h.known.evolves (hg.grows.mono fun _ _ _ h => h.toExecStep).evolves
  live   := hg.grows.live h.live
  status := h.status

theorem Live.running {w t : World} (h : Live w.db runId)
    (hr : t.journal = w.journal ∧ w.db.runs.get? runId = some run) :
    Running t.db run ∧ run.runId = runId := by
  have hi := Table.get?_key_eq hr.right
  refine ⟨⟨.of_reload hr, ?_, h run hr.right⟩, hi⟩
  rw [hi, World.db_eq hr.left]
  exact h

namespace Kernel.Moves

variable {strict : Prop} {w : World} {run : RunRow}

section Terminal

theorem terminalCancelledLoop (hr : Running w.db run) :
    Moves (ExecStep strict) (terminalCancelledLoop .cancelled leaseOwner n run)
      (fun _ _ => True) w := by
  induction n generalizing w run
  case zero => exact fail
  case succ n ih =>
    unfold Kernel.terminalCancelledLoop
    refine now.bind fun updatedAt t _ hj => ?_
    refine leaseExpires.bind fun lease u _ hj' => ?_
    rw [← World.db_eq <| hj'.trans hj] at hr
    refine (cas (terminalCancelledTx_spec hr.known hr.status)
      (fun _ h => h.exec fun _ => .inl rfl) (.idle ..) (by simp)).bind fun applied v _ ho => ?_
    split
    case isTrue     => exact pure trivial
    case isFalse ha =>
      refine reload.bind fun run' x _ h => ?_
      have ⟨hr, _⟩ := Live.running (w := v) (ho.miss ha ▸ hr.live) h
      split
      · exact ih hr
      · split
        · exact pure trivial
        · exact ih hr

theorem terminalCancelled (hr : Running w.db run) :
    Moves (ExecStep strict) (terminalCancelled run leaseOwner) (fun _ _ => True) w := by
  refine bind (Q := fun e t => t.journal = w.journal ∧ e = .cancelled) ?_ fun e t _ ⟨hj, he⟩ => ?_
  · exact (validate checkGenerationEvent _).bind fun _ _ _ h => pure ⟨h.left, rfl⟩
  · subst he
    exact terminalCancelledLoop <| World.db_eq hj ▸ hr

theorem eventPayload (e : GenerationEvent) : Moves S (eventPayload e)
    (fun p t => t.journal = w.journal ∧ p = e ∧ checkGenerationEvent e "" = []) w :=
  (validate checkGenerationEvent e).bind fun _ _ _ h => pure ⟨h.left, rfl, h.right⟩

-- A terminal event other than `cancelled` needs a copy on which no cancel was requested.
theorem terminalFailedLoop (hr : Running w.db run) (hc : strict → run.cancelRequested = false) :
    Moves (ExecStep strict) (terminalFailedLoop error (.failed error) leaseOwner n run)
      (fun _ _ => True) w := by
  induction n generalizing w run
  case zero => exact fail
  case succ n ih =>
    unfold Kernel.terminalFailedLoop
    refine now.bind fun updatedAt t _ hj => ?_
    refine leaseExpires.bind fun lease u _ hj' => ?_
    rw [← World.db_eq <| hj'.trans hj] at hr
    refine (cas (terminalFailedTx_spec hr.known hr.status)
      (fun _ h => h.exec fun hs => .inr <| hc hs) (.idle ..) (by simp)).bind fun applied v _ ho => ?_
    split
    case isTrue     => exact pure trivial
    case isFalse ha =>
      refine reload.bind fun run' x _ h => ?_
      have ⟨hr, _⟩ := Live.running (w := v) (ho.miss ha ▸ hr.live) h
      split
      case isTrue     => exact terminalCancelled hr
      case isFalse hn =>
        split
        · exact pure trivial
        · exact ih hr fun _ => by simp_all

theorem terminalFailed (hr : Running w.db run) (hc : strict → run.cancelRequested = false) :
    Moves (ExecStep strict) (terminalFailed run error leaseOwner) (fun _ _ => True) w := by
  refine (eventPayload _).bind fun e t _ ⟨hj, he, _⟩ => ?_
  subst he
  exact terminalFailedLoop (World.db_eq hj ▸ hr) hc

theorem terminalCompletedLoop (hr : Running w.db run) (hc : strict → run.cancelRequested = false) :
    Moves (ExecStep strict) (terminalCompletedLoop message (.completed dto) leaseOwner n run)
      (fun _ _ => True) w := by
  induction n generalizing w run
  case zero => exact fail
  case succ n ih =>
    unfold Kernel.terminalCompletedLoop
    refine leaseExpires.bind fun lease u _ hj => ?_
    rw [← World.db_eq hj] at hr
    refine (cas (terminalCompletedTx_spec hr.known hr.status)
      (fun _ h => h.exec fun hs => .inr <| hc hs) (.idle ..) (by simp)).bind fun applied v _ ho => ?_
    split
    case isTrue     => exact pure trivial
    case isFalse ha =>
      refine reload.bind fun run' x _ h => ?_
      have ⟨hr, _⟩ := Live.running (w := v) (ho.miss ha ▸ hr.live) h
      split
      case isTrue     => exact terminalCancelled hr
      case isFalse hn =>
        split
        · exact pure trivial
        · exact ih hr fun _ => by simp_all

theorem terminalCompleted (hr : Running w.db run) (hc : strict → run.cancelRequested = false) :
    Moves (ExecStep strict) (terminalCompleted run fullText leaseOwner) (fun _ _ => True) w := by
  refine newId.bind fun messageId t₁ _ ⟨hj₁, _⟩ => ?_
  refine now.bind fun createdAt t₂ _ hj₂ => ?_
  refine query.bind fun sequence t₃ _ ⟨hj₃, _⟩ => ?_
  refine (validate checkMessageDto _).bind fun _ t₄ _ ⟨hj₄, _⟩ => ?_
  refine (eventPayload _).bind fun e t₅ _ ⟨hj₅, he, _⟩ => ?_
  subst he
  have hj := hj₅.trans <| hj₄.trans <| hj₃.trans <| hj₂.trans hj₁
  exact terminalCompletedLoop (World.db_eq hj ▸ hr) hc

end Terminal

section Steps

-- The fresh copy after a transition: the run is still being executed.
structure Fresh (strict : Prop) (runId : String) (next : RunRow) (t : World) : Prop where
  running : Running t.db next
  id      : next.runId = runId
  cancel  : strict → next.cancelRequested = false

theorem reloadAdvanced (hit : Hit d w.db run (.advance status))
    (hc : strict → run.cancelRequested = false) :
    Moves S (Kernel.reload run.runId) (Fresh strict run.runId) w := by
  have ⟨r', hr', hs⟩ := hit.row
  obtain ⟨hst, ht, hq⟩ : r'.status = status ∧ ¬isTerminal status ∧
    r'.cancelRequested = run.cancelRequested := hs.step.advance_status
  have hl : Live w.db run.runId := fun r hr => by
    obtain rfl := Option.some.inj <| hr'.symm.trans hr
    exact hst ▸ ht
  refine reload.post fun next t _ h => ?_
  have ⟨hr, hi⟩ := hl.running h
  obtain rfl := Option.some.inj <| hr'.symm.trans h.right
  exact ⟨hr, hi, fun hs => hq ▸ hc hs⟩

theorem casStatusLoop (hr : Running w.db run) (hc : strict → run.cancelRequested = false)
    (ht : ¬isTerminal status) (hn : status ≠ .cancelling) :
    Moves (ExecStep strict) (casStatusLoop status leaseOwner lease updatedAt n run)
      (fun o t => ∀ next, o = .proceed next → Fresh strict run.runId next t) w := by
  induction n generalizing w run
  case zero => exact fail
  case succ n ih =>
    unfold Kernel.casStatusLoop
    refine (cas (advanceTx_spec hr.known hr.status ht hn)
      (fun _ h => h.exec fun hs => .inr <| hc hs) (.idle ..) (by simp)).bind fun changed v _ ho => ?_
    split
    case isTrue ha =>
      refine (reloadAdvanced (ho.hit ha) hc).bind fun next x _ h => ?_
      exact pure <| by rintro _ ⟨⟩; exact h
    case isFalse ha =>
      refine reload.bind fun run' x _ h => ?_
      have ⟨hr, hi⟩ := Live.running (w := v) (ho.miss ha ▸ hr.live) h
      split
      case isTrue =>
        exact (terminalCancelled hr).bind fun _ _ _ _ => pure <| by rintro _ ⟨⟩
      case isFalse hn =>
        split
        · exact pure <| by rintro _ ⟨⟩
        · exact hi ▸ ih hr fun _ => by simp_all

theorem casStatus (hr : Running w.db run) (hc : strict → run.cancelRequested = false)
    (ht : ¬isTerminal status) (hn : status ≠ .cancelling) :
    Moves (ExecStep strict) (casStatus run status leaseOwner)
      (fun o t => ∀ next, o = .proceed next → Fresh strict run.runId next t) w := by
  refine now.bind fun updatedAt t _ hj => ?_
  refine leaseExpires.bind fun lease u _ hj' => ?_
  exact casStatusLoop (World.db_eq (hj'.trans hj) ▸ hr) hc ht hn

theorem commitShutdownProgress (hr : Running w.db run) :
    Moves (ExecStep strict) (commitShutdownProgress run) (fun _ _ => True) w := by
  refine now.bind fun updatedAt t _ hj => ?_
  rw [← World.db_eq hj] at hr
  refine bind (Q := fun _ _ => True) ?_ fun _ _ _ _ => pure trivial
  refine attempt (post (Q := fun n u => Outcome t.db run .release (n ≠ 0) u.db) ?_
    fun _ _ _ _ => trivial) fun _ _ _ => trivial
  exact cas (releaseTx_spec hr.known hr.status) (fun _ h => h.exec fun _ => .inl rfl) (.idle ..)
    (by simp)

theorem reloadDelta (hit : Hit d w.db run (.delta text)) (hs : ¬isTerminal run.status)
    (hc : strict → run.cancelRequested = false) :
    Moves S (Kernel.reload run.runId) (Fresh strict run.runId) w := by
  have ⟨r', hr', hs'⟩ := hit.row
  obtain ⟨hst, hq⟩ : r'.status = run.status ∧ r'.cancelRequested = run.cancelRequested :=
    hs'.step.delta_status
  have hl : Live w.db run.runId := fun r hr => by
    obtain rfl := Option.some.inj <| hr'.symm.trans hr
    exact hst ▸ hs
  refine reload.post fun next t _ h => ?_
  have ⟨hr, hi⟩ := hl.running h
  obtain rfl := Option.some.inj <| hr'.symm.trans h.right
  exact ⟨hr, hi, fun hs => hq ▸ hc hs⟩

theorem checkpointPayload : Moves S (checkpointPayload run text i) (fun p t =>
    t.journal = w.journal ∧ p = if isCheckpoint i then
      some (.checkpoint (endSequence run i) (run.partialLength + text.utf8ByteSize)) else none) w := by
  unfold Kernel.checkpointPayload
  split
  · exact (eventPayload _).bind fun e _ _ ⟨hj, he, _⟩ => pure ⟨hj, by rw [he]⟩
  · exact pure ⟨rfl, rfl⟩

theorem commitDelta (hr : Running w.db run) (hs : isCancellable run.status)
    (hc : run.cancelRequested = false) :
    Moves (QuietStep strict) (commitDelta run text i leaseOwner) (fun o t =>
      (o = none → Running t.db run) ∧ ∀ next, o = some next → Fresh strict run.runId next t) w := by
  refine (eventPayload _).bind fun e t₁ _ ⟨hj₁, he, _⟩ => ?_
  subst he
  refine checkpointPayload.bind fun cp t₂ _ ⟨hj₂, hp⟩ => ?_
  refine now.bind fun updatedAt t₃ _ hj₃ => ?_
  refine leaseExpires.bind fun lease t₄ _ hj₄ => ?_
  rw [← World.db_eq <| hj₄.trans <| hj₃.trans <| hj₂.trans hj₁] at hr
  refine (cas (deltaTx_spec hr.known hs hc hp)
    (fun _ h => ⟨h.exec fun _ => .inr hc, rfl⟩) ⟨.idle .., rfl⟩ (by simp)).bind
    fun applied t₅ _ ho => ?_
  split
  case isTrue ha =>
    refine sendNotice.bind fun _ t₆ _ hj₆ => ?_
    have hit := World.db_eq hj₆ ▸ ho.hit ha
    refine bind (Q := Fresh strict run.runId) (reloadDelta hit hr.status fun _ => hc)
      fun next t₇ _ h => ?_
    exact pure ⟨by rintro ⟨⟩, by rintro _ ⟨⟩; exact h⟩
  case isFalse ha =>
    exact pure ⟨fun _ => ho.miss ha ▸ hr, by rintro _ ⟨⟩⟩

end Steps

end Kernel.Moves
