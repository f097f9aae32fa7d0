import NeoTavern.Generation.Execution

open Wire Storage Kernel Proc

-- An adapter that gives up as soon as it is told to stop.
def Kernel.Attempt.Obedient : Attempt → Prop
  | .done _      => True
  | .emit _ next => (∃ e, next .stop = .done (.error e) ∧ e.code = .cancelled) ∧
    (next .continue).Obedient

def Kernel.ProviderRegistry.Obedient (registry : ProviderRegistry) : Prop :=
  ∀ adapter ∈ registry, ∀ n request, (adapter.generate n request).Obedient

-- The first drain of the executor cancels no run whose row the executor goes on with.
def Kernel.CleanBoundary (drain : KernelM Bool) (streamId : String) : World → Prop :=
  wp (reload streamId) (fun _ => wp drain (fun shutdown t => shutdown = false →
    ∀ r ∈ t.db.runs.get? streamId, r.status ≠ .cancelling) fun _ _ => True) fun _ _ => True

instance : Decidable (CleanBoundary drain streamId w) :=
  inferInstanceAs <| Decidable (wp ..)

namespace Kernel.Moves

variable {strict : Prop} {w : World} {run : RunRow}

section Emit

-- The copy that the sink holds.
structure Held (strict : Prop) (runId : String) (cancelled : Prop) (st : EmitState) (t : World) :
    Prop where
  running : Running t.db st.run
  id      : st.run.runId = runId
  cancel  : strict → ¬cancelled → st.run.cancelRequested = false

variable {drain : KernelM Bool} {st : EmitState}

theorem emitDelta (hr : Running w.db st.run) (hi : st.run.runId = runId)
    (hs : isCancellable st.run.status) (hc : st.run.cancelRequested = false) :
    Moves (QuietStep strict) (emitDelta leaseOwner text st)
      (fun r t => Held strict runId (r.fst = .stop) r.snd t) w := by
  unfold Kernel.emitDelta
  refine bind (Q := fun r t => Running t.db st.run ∧
      ∀ next, r = .ok (some next) → Fresh strict st.run.runId next t)
    ((commitDelta hr hs hc).post ?_ |>.attempt ?_) ?_
  · intro o t hg ⟨_, h⟩
    refine ⟨hr.later hg, ?_⟩
    rintro next ⟨⟩
    exact h next rfl
  · intro e t hg
    exact ⟨hr.later hg, by rintro _ ⟨⟩⟩
  · intro r t _ ⟨hr, hn⟩
    rcases r with e | (_ | next)
    · exact pure ⟨hr, hi, fun _ h => absurd rfl h⟩
    · exact pure ⟨hr, hi, fun _ _ => hc⟩
    · have hf := hn next rfl
      exact pure ⟨hf.running, hf.id.trans hi, fun hs _ => hf.cancel hs⟩

theorem emit (hd : ∀ w, Moves UnaryStep drain (fun _ _ => True) w) (hr : Running w.db st.run)
    (hi : st.run.runId = runId) :
    Moves (QuietStep strict) (emit drain runId leaseOwner text st)
      (fun r t => Held strict runId (r.fst = .stop) r.snd t) w := by
  unfold Kernel.emit
  have hd : Moves (QuietStep strict) drain (fun _ _ => True) w :=
    (hd w).mono (fun _ _ _ h => h.quiet) fun _ _ _ _ => trivial
  refine hd.bind ?_
  intro shutdown t hg _
  have hr := hr.later hg
  split
  case isTrue  => exact pure ⟨hr, hi, fun _ h => absurd rfl h⟩
  case isFalse =>
    unfold Kernel.emitServiced
    refine bind (Q := fun r u => Running u.db st.run ∧
        ∀ next, r = .ok next → Running u.db next ∧ next.runId = runId)
      (reload.post ?_ |>.attempt fun e u hg => ⟨hr.later hg, by rintro _ ⟨⟩⟩) ?_
    · intro next u hg h
      refine ⟨hr.later hg, ?_⟩
      rintro _ ⟨⟩
      exact Live.running (hi ▸ hr.live) h
    · intro r u _ ⟨hr, hn⟩
      rcases r with e | next
      · exact pure ⟨hr, hi, fun _ h => absurd rfl h⟩
      · have ⟨hr, hi⟩ := hn next rfl
        dsimp only
        split
        case isTrue  => exact pure ⟨hr, hi, fun _ h => absurd rfl h⟩
        case isFalse hs =>
          refine emitDelta hr hi ?_ ?_
          · cases hst : next.status <;> simp_all [isCancellable, isTerminal]
          · simp_all

-- What the adapter reports decides whether the run may still complete.
def stopped (result : Except ProviderError Usage) : Prop :=
  ∃ e, result = .error e ∧ e.code = .cancelled

theorem generate (hd : ∀ w, Moves UnaryStep drain (fun _ _ => True) w) (attempt : Attempt)
    (ho : strict → attempt.Obedient) (hh : Held strict runId False st w) :
    Moves (QuietStep strict) (generate drain runId leaseOwner attempt st)
      (fun r t => Held strict runId (stopped r.fst) r.snd t) w := by
  induction attempt generalizing w st
  case done result => exact pure ⟨hh.running, hh.id, fun hs _ => hh.cancel hs id⟩
  case emit text next ih =>
    unfold Kernel.generate
    refine (emit hd hh.running hh.id).bind fun (status, st) t _ hh => ?_
    cases status
    case «continue» =>
      exact ih .continue (fun hs => (ho hs).right) ⟨hh.running, hh.id, fun hs _ => hh.cancel hs nofun⟩
    case stop =>
      by_cases hs : strict
      case pos =>
        have ⟨e, he, hc⟩ := (ho hs).left
        dsimp only
        rw [he]
        exact pure ⟨hh.running, hh.id, fun _ h => absurd ⟨e, rfl, hc⟩ h⟩
      case neg =>
        -- The adapter may go on, and learns again that it should not.
        exact ih .stop (absurd · hs) ⟨hh.running, hh.id, fun h => absurd h hs⟩

end Emit

section Execute

theorem finishAttempt (hr : Running w.db run)
    (hc : strict → ¬stopped result → run.cancelRequested = false) :
    Moves (ExecStep strict) (finishAttempt leaseOwner streamId provider model result run)
      (fun _ _ => True) w := by
  unfold Kernel.finishAttempt
  have notice {w : World} {n : Int} :
      Moves (ExecStep strict) (sendTerminal streamId n) (fun _ _ => True) w :=
    sendNotice.post fun _ _ _ _ => trivial
  split
  case h_1 usage =>
    refine concatDeltaText.bind fun fullText t _ hj => ?_
    refine (terminalCompleted (World.db_eq hj ▸ hr) fun hs => hc hs ?_).bind fun _ _ _ _ => notice
    rintro ⟨_, ⟨⟩, _⟩
  case h_2 e =>
    split
    case h_1 => exact (terminalCancelled hr).bind fun _ _ _ _ => notice
    case h_2 error he =>
      refine (terminalFailed hr fun hs => hc hs ?_).bind fun _ _ _ _ => notice
      rintro ⟨_, ⟨⟩, hc⟩
      simp [providerFailure, hc] at he

theorem nextAttempt : Moves S nextAttempt (fun _ t => t.journal = w.journal) w :=
  ⟨⟨.refl, List.suffix_rfl⟩, rfl⟩

variable {drain : KernelM Bool} {registry : ProviderRegistry}

theorem runProvider (hd : ∀ w, Moves UnaryStep drain (fun _ _ => True) w)
    (ho : strict → registry.Obedient) (hf : Fresh strict streamId run w) :
    Moves (ExecStep strict) (runProvider leaseOwner drain streamId registry runTimeout run)
      (fun _ _ => True) w := by
  unfold Kernel.runProvider
  dsimp only
  split
  case h_1 =>
    refine (terminalFailed hf.running hf.cancel).bind fun _ _ _ _ => ?_
    exact sendNotice.post fun _ _ _ _ => trivial
  case h_2 adapter ha =>
    refine nextAttempt.bind fun attempt t _ hj => ?_
    have hm : adapter ∈ registry := List.mem_of_find?_eq_some ha
    have hh : Held strict streamId False { run } t := ⟨World.db_eq hj ▸ hf.running, hf.id, fun hs _ => hf.cancel hs⟩
    refine ((generate hd _ (fun hs => ho hs adapter hm _ _) hh).mono (fun _ _ _ h => h.toExecStep)
      fun _ _ _ h => h).bind fun (result, st) u _ hh => ?_
    unfold Kernel.endAttempt
    split
    case h_1 => exact fail
    case h_2 =>
      split
      · exact commitShutdownProgress hh.running
      · exact finishAttempt hh.running hh.cancel

theorem proceed {next : RunRow → KernelM Unit}
    (h : ∀ run, outcome = .proceed run → Moves S (next run) (fun _ _ => True) w) :
    Moves S (proceed streamId outcome next) (fun _ _ => True) w := by
  cases outcome
  case proceed run      => exact h run rfl
  case cancelled        => exact sendNotice.post fun _ _ _ _ => trivial
  case alreadyTerminal  => exact pure trivial

-- The copy that the executor starts from after the first drain.
theorem reload_fresh (hl : Live w.db streamId) (hq : strict → Respected w.db streamId)
    (hb : strict → ∀ r, w.db.runs.get? streamId = some r → r.status ≠ .cancelling)
    (hr : t.journal = w.journal ∧ w.db.runs.get? streamId = some run) :
    Fresh strict streamId run t := by
  have ⟨hr', hi⟩ := hl.running hr
  refine ⟨hr', hi, fun hs => ?_⟩
  by_contra hc
  have hset := hq hs run hr.right (by simpa using hc)
  have ht := hr'.status
  have hn := hb hs run hr.right
  cases hst : run.status <;> simp_all [settled, isTerminal]

theorem executeStream (hd : ∀ w, Moves UnaryStep drain (fun _ _ => True) w)
    (ho : strict → registry.Obedient) (hl : Live w.db streamId)
    (hq : strict → Respected w.db streamId) (hb : strict → CleanBoundary drain streamId w) :
    Moves (ExecStep strict) (executeStream leaseOwner drain streamId registry runTimeout)
      (fun _ _ => True) w := by
  unfold Kernel.executeStream
  refine reload.bind_run fun run t hrun _ h => ?_
  have hl : Live t.db streamId := World.db_eq h.left ▸ hl
  have hq : strict → Respected t.db streamId := World.db_eq h.left ▸ hq
  have hr := hl.running ⟨rfl, World.db_eq h.left ▸ h.right⟩ |>.left
  have hd' : Moves (ExecStep strict) drain
      (fun _ u => Later (QuietStep strict) t u) t :=
    (hd t).mono (fun _ _ _ h => h.quiet.toExecStep) fun _ _ hg _ => hg.mono fun _ _ _ h => h.quiet
  refine hd'.bind_run fun shutdown u hdrain _ hg => ?_
  have hl : Live u.db streamId := hg.grows.live hl
  split
  case isTrue  => exact commitShutdownProgress <| hr.later hg
  case isFalse hshut =>
    have hq : strict → Respected u.db streamId := fun hs =>
      (hg.grows.mono fun _ _ _ h => h.toKernelStep).respected hs <| hq hs
    have hb : strict → ∀ r, u.db.runs.get? streamId = some r → r.status ≠ .cancelling := fun hs =>
      (wp_of_ok hdrain).mp ((wp_of_ok hrun).mp <| hb hs) (by simpa using hshut)
    unfold Kernel.executeRun
    refine reload.bind fun run v _ h => ?_
    have hf := reload_fresh hl hq hb h
    refine (casStatus hf.running hf.cancel (by decide) (by decide)).bind fun o x _ ho' => ?_
    refine proceed fun run h => ?_
    have hf := hf.id ▸ ho' run h
    refine (casStatus hf.running hf.cancel (by decide) (by decide)).bind fun o y _ ho' => ?_
    refine proceed fun run h => ?_
    exact runProvider hd ho <| hf.id ▸ ho' run h

end Execute
end Kernel.Moves
