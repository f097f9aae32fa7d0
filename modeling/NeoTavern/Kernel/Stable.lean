import NeoTavern.Kernel.Writer

namespace Kernel

open Wire Storage Proc

-- An invariant that commits, readings of the clock and failures of the storage cannot break.
class Stable (I : World → Prop) : Prop where
  mono : ∀ w t, t.env = w.env → t.inbox = w.inbox → t.attempts = w.attempts →
    w.failures <:+ t.failures → I w → I t

-- A step that touches nothing that the storage or the outside world could notice.
structure Silent (w t : World) : Prop where
  env      : t.env = w.env
  inbox    : t.inbox = w.inbox
  attempts : t.attempts = w.attempts
  failures : t.failures = w.failures

-- The commands that still wait, and the attempts made so far.
def Waiting (bs : List (List Command)) (n : Nat) (w : World) : Prop :=
  w.inbox = bs ∧ w.attempts = n

instance : Stable (Waiting bs n) where
  mono _ _ _ hi ha _ h := ⟨hi.trans h.left, ha.trans h.right⟩

-- Failures of the storage stay on record.
def Failed (es : List StorageError) (w : World) : Prop :=
  es <:+ w.failures

instance : Stable (Failed es) where
  mono _ _ _ _ _ hf h := h.trans hf

-- Nothing that the kernel does changes what it finds outside.
def Within (env : Env) (w : World) : Prop :=
  w.env = env

instance : Stable (Within env) where
  mono _ _ he _ _ _ h := he.trans h

namespace Keeps

variable {α : Type} {I : World → Prop} [Stable I] {run : RunRow} {runId : String}

section Primitives

theorem silent {w t : World} (h : Silent w t) : I w → I t :=
  Stable.mono w t h.env h.inbox h.attempts <| h.failures ▸ List.suffix_rfl

theorem modify {f : World → World} (h : ∀ w, Silent w (f w)) :
    Keeps I (Proc.modify f : KernelM Unit) :=
  ⟨fun w => silent (h w)⟩

theorem utcNow : Keeps I utcNow :=
  ⟨fun _ => silent ⟨rfl, rfl, rfl, rfl⟩⟩

theorem now : Keeps I now :=
  utcNow.bind fun _ => .pure _

theorem leaseExpires : Keeps I leaseExpires :=
  utcNow.bind fun t => by
    split
    · exact .pure _
    · exact now

theorem newId : Keeps I newId :=
  ⟨fun _ => silent ⟨rfl, rfl, rfl, rfl⟩⟩

theorem sendNotice : Keeps I (sendNotice runId n) :=
  modify fun _ => ⟨rfl, rfl, rfl, rfl⟩

theorem storageFailure : Keeps I (storageFailure e : KernelM α) :=
  ⟨fun w (h : I w) => (Stable.mono w _ rfl rfl rfl (List.suffix_cons ..) h :
    I { w with failures := e :: w.failures })⟩

theorem faulty {p : KernelM α} (hp : Keeps I p) : Keeps I (faulty context p) := by
  refine ⟨fun w h => ?_⟩
  have h : I { w with ops := w.ops + 1 } := silent (w := w) ⟨rfl, rfl, rfl, rfl⟩ h
  have hp := hp.run _ h
  have hs {f} := (storageFailure (α := α) (e := .fromSqlite f context)).run _ h
  unfold wp at hp hs
  unfold Kernel.faulty wp
  cases hf : w.env.fault w.ops
  case none   => simpa only [hf] using hp
  case some f => simpa only [hf] using hs

theorem query {f : Db → α} : Keeps I (query context f) :=
  faulty <| .gets _

theorem transaction {label : α → Label} {body : Tx α} :
    Keeps I (transaction context label body) := by
  refine faulty ⟨fun w h => ?_⟩
  unfold wp
  rcases hb : body w.db with ⟨r, d⟩
  cases r
  case ok a    =>
    simpa only [hb] using Stable.mono w { w with journal := w.journal.push (label a) d } rfl rfl rfl
      List.suffix_rfl h
  case error e =>
    have hs := (storageFailure (α := α) (e := e)).run w h
    unfold wp at hs
    simpa only [hb] using hs

omit [Stable I] in
theorem validate {check : α → String → List Issue} : Keeps I (validate check dto) := by
  unfold Kernel.validate
  split
  · exact .pure _
  · exact .fail _

omit [Stable I] in
theorem decodeRequest {check : α → String → List Issue} :
    Keeps I (decodeRequest check req) := by
  unfold Kernel.decodeRequest
  split
  · exact .pure _
  · exact .fail _

end Primitives

section Rows

theorem requireRun : Keeps I (requireRun runId missing) :=
  query.bind fun r => by
    cases r
    case none   => exact .fail _
    case some r => exact .pure _

omit [Stable I] in
theorem ensureRecoverable : Keeps I (ensureRecoverable run) := by
  unfold Kernel.ensureRecoverable
  split
  · exact .pure _
  · exact .fail _

theorem concatDeltaText : Keeps I (concatDeltaText runId) :=
  (query.bind fun _ => .ofExcept _).bind fun _ => .pure _

theorem runResponse : Keeps I (runResponse run) := by
  have hr : Keeps I (runToDto run) := concatDeltaText.bind fun _ => .pure _
  exact hr.bind fun _ => validate.bind fun _ => .pure _

end Rows

section Operations

theorem cancelLoop : Keeps I (cancelLoop runId updatedAt n run) := by
  induction n generalizing run
  case zero => exact .fail _
  case succ n ih =>
    unfold Kernel.cancelLoop
    split
    · refine transaction.bind fun _ => ?_
      split
      · exact requireRun.bind fun _ => ih
      · exact .pure _
    · split
      · exact .pure _
      · exact .fail _

theorem generationCancel : Keeps I (generationCancel req) :=
  decodeRequest.bind fun _ => requireRun.bind fun _ => now.bind fun _ => cancelLoop

theorem generationGet : Keeps I (generationGet req) :=
  decodeRequest.bind fun _ => requireRun.bind fun _ => runResponse

theorem generationEvents : Keeps I (generationEvents req) :=
  decodeRequest.bind fun _ => requireRun.bind fun _ => query.bind fun _ => .pure _

theorem keepLoop : Keeps I (keepLoop chatId messageId createdAt fullText n run) := by
  induction n generalizing run
  case zero => exact .pure _
  case succ n ih =>
    unfold Kernel.keepLoop
    refine transaction.bind fun _ => ?_
    split
    · exact .pure _
    · refine requireRun.bind fun run => ensureRecoverable.bind fun _ => ?_
      split
      · exact .pure _
      · split
        · exact .bind (.fail _) fun _ => ih
        · exact ih

theorem generationKeep : Keeps I (generationKeep req) := by
  refine decodeRequest.bind fun _ => requireRun.bind fun _ => ensureRecoverable.bind fun _ => ?_
  split
  · exact runResponse
  · split
    · exact .fail _
    · refine concatDeltaText.bind fun _ => newId.bind fun _ => now.bind fun _ => ?_
      refine keepLoop.bind fun _ => requireRun.bind fun _ => ?_
      split
      · exact .bind (.fail _) fun _ => runResponse
      · exact runResponse

theorem discardLoop : Keeps I (discardLoop updatedAt n run) := by
  induction n generalizing run
  case zero => exact .pure _
  case succ n ih =>
    unfold Kernel.discardLoop
    refine transaction.bind fun _ => ?_
    split
    · exact .pure _
    · exact requireRun.bind fun run => ensureRecoverable.bind fun _ => ih

theorem generationDiscard : Keeps I (generationDiscard req) := by
  refine decodeRequest.bind fun _ => requireRun.bind fun _ => ensureRecoverable.bind fun _ => ?_
  refine now.bind fun _ => discardLoop.bind fun _ => requireRun.bind fun _ => ?_
  split
  · exact .bind (.fail _) fun _ => runResponse
  · exact runResponse

theorem characterResponse : Keeps I (characterResponse i missing) :=
  query.bind fun c => by
    cases c
    case none   => exact .fail _
    case some c => exact validate.bind fun _ => .pure _

theorem charactersCreate : Keeps I (charactersCreate req) :=
  decodeRequest.bind fun _ => newId.bind fun _ => now.bind fun _ => transaction.bind fun _ =>
    characterResponse

theorem charactersUpdate : Keeps I (charactersUpdate req) := by
  refine decodeRequest.bind fun _ => now.bind fun _ => transaction.bind fun _ => ?_
  split
  · exact .fail _
  · exact characterResponse

theorem charactersDelete : Keeps I (charactersDelete req) := by
  refine decodeRequest.bind fun _ => transaction.bind fun _ => ?_
  split
  · exact .fail _
  · exact .pure _

theorem handleUnary : Keeps I (handleUnary op cancelled) := by
  have hu {α : Type} {p : KernelM α} (h : Keeps I p) : Keeps I (unit p) :=
    h.bind fun _ => .pure _
  unfold Kernel.handleUnary
  split
  case isTrue  => exact .fail _
  case isFalse =>
    cases op
    case charactersCreate  => exact hu charactersCreate
    case charactersUpdate  => exact hu charactersUpdate
    case charactersDelete  => exact charactersDelete
    case generationCancel  => exact generationCancel
    case generationGet     => exact hu generationGet
    case generationEvents  => exact hu generationEvents
    case generationKeep    => exact hu generationKeep
    case generationDiscard => exact hu generationDiscard
    case other             => exact .ofExcept _

theorem drainCommand : Keeps I (drainCommand c) := by
  cases c
  case unary => exact handleUnary.attempt.bind fun _ => .pure _
  all_goals
    refine Keeps.bind (Keeps.modify fun _ => ?_) fun _ => Keeps.pure _
    exact ⟨rfl, rfl, rfl, rfl⟩

theorem drainCommands : Keeps I (drainCommands cs) := by
  induction cs
  case nil     => exact .pure _
  case cons ih => exact drainCommand.bind fun _ => ih.bind fun _ => .pure _

omit [Stable I] in
theorem drainPending : Keeps (Failed es) drainPending := by
  have hb : Keeps (Failed es) takeBatch := ⟨fun _ h => h⟩
  exact hb.bind fun _ => drainCommands

end Operations

section Start

theorem streamSetup : Keeps I (streamSetup op) := by
  cases op
  case start =>
    refine decodeRequest.bind fun _ => query.bind fun _ => ?_
    split
    · exact .bind (.fail _) fun _ => .pure _
    · exact .pure _
  case retry =>
    exact decodeRequest.bind fun _ => requireRun.bind fun _ => ensureRecoverable.bind fun _ => .pure _
  case other => exact .fail _

theorem streamStart : Keeps I (streamStart op leaseOwner) :=
  newId.bind fun _ => streamSetup.bind fun _ => now.bind fun _ => leaseExpires.bind fun _ =>
    transaction.bind fun _ => .pure _

end Start

section Executor

variable {leaseOwner : String}

omit [Stable I] in
theorem eventPayload : Keeps I (eventPayload e) :=
  validate.bind fun _ => .pure _

theorem terminalCancelled : Keeps I (terminalCancelled run leaseOwner) := by
  have loop (payload : GenerationEvent) (n : Nat) (run : RunRow) :
      Keeps I (terminalCancelledLoop payload leaseOwner n run) := by
    induction n generalizing run
    case zero => exact .fail _
    case succ n ih =>
      unfold Kernel.terminalCancelledLoop
      refine now.bind fun _ => leaseExpires.bind fun _ => transaction.bind fun _ => ?_
      split
      · exact .pure _
      · refine requireRun.bind fun run => ?_
        split
        · exact ih run
        · split
          · exact .pure _
          · exact ih run
  exact eventPayload.bind fun payload => loop payload 8 run

theorem terminalFailed : Keeps I (terminalFailed run error leaseOwner) := by
  have loop (payload : GenerationEvent) (n : Nat) (run : RunRow) :
      Keeps I (terminalFailedLoop error payload leaseOwner n run) := by
    induction n generalizing run
    case zero => exact .fail _
    case succ n ih =>
      unfold Kernel.terminalFailedLoop
      refine now.bind fun _ => leaseExpires.bind fun _ => transaction.bind fun _ => ?_
      split
      · exact .pure _
      · refine requireRun.bind fun run => ?_
        split
        · exact terminalCancelled
        · split
          · exact .pure _
          · exact ih run
  exact eventPayload.bind fun payload => loop payload 8 run

theorem terminalCompleted : Keeps I (terminalCompleted run fullText leaseOwner) := by
  have loop (message : MessageRow) (payload : GenerationEvent) (n : Nat) (run : RunRow) :
      Keeps I (terminalCompletedLoop message payload leaseOwner n run) := by
    induction n generalizing run
    case zero => exact .fail _
    case succ n ih =>
      unfold Kernel.terminalCompletedLoop
      refine leaseExpires.bind fun _ => transaction.bind fun _ => ?_
      split
      · exact .pure _
      · refine requireRun.bind fun run => ?_
        split
        · exact terminalCancelled
        · split
          · exact .pure _
          · exact ih run
  refine newId.bind fun _ => now.bind fun _ => query.bind fun _ => validate.bind fun _ => ?_
  exact eventPayload.bind fun payload => loop _ payload 8 run

theorem casStatus : Keeps I (casStatus run status leaseOwner) := by
  have loop (lease updatedAt : String) (n : Nat) (run : RunRow) :
      Keeps I (casStatusLoop status leaseOwner lease updatedAt n run) := by
    induction n generalizing run
    case zero => exact .fail _
    case succ n ih =>
      unfold Kernel.casStatusLoop
      refine transaction.bind fun _ => ?_
      split
      · exact requireRun.bind fun _ => .pure _
      · refine requireRun.bind fun run => ?_
        split
        · exact terminalCancelled.bind fun _ => .pure _
        · split
          · exact .pure _
          · exact ih run
  exact now.bind fun _ => leaseExpires.bind fun _ => loop _ _ 8 run

theorem commitDelta : Keeps I (commitDelta run text i leaseOwner) := by
  have hc : Keeps I (checkpointPayload run text i) := by
    unfold Kernel.checkpointPayload
    split
    · exact eventPayload.bind fun _ => .pure _
    · exact .pure _
  refine eventPayload.bind fun _ => hc.bind fun _ => now.bind fun _ => leaseExpires.bind fun _ => ?_
  refine transaction.bind fun _ => ?_
  split
  · exact sendNotice.bind fun _ => requireRun.bind fun _ => .pure _
  · exact .pure _

theorem emitServiced : Keeps I (emitServiced streamId leaseOwner text st) := by
  refine requireRun.attempt.bind fun r => ?_
  cases r
  case error  => exact .pure _
  case ok run =>
    dsimp only
    split
    · exact .pure _
    · refine commitDelta.attempt.bind fun r => ?_
      rcases r with _ | (_ | _)
      all_goals exact .pure _

variable {drain : KernelM Bool} (hd : Keeps I drain)

include hd

theorem emit : Keeps I (emit drain streamId leaseOwner text st) := by
  refine hd.bind fun _ => ?_
  split
  · exact .pure _
  · exact emitServiced

theorem generate {a : Attempt} : Keeps I (generate drain streamId leaseOwner a st) := by
  induction a generalizing st
  case done        => exact .pure _
  case emit _ _ ih => exact (emit hd).bind fun (status, _) => ih status

end Executor

section Execute

variable {leaseOwner : String}

theorem finishAttempt :
    Keeps I (finishAttempt leaseOwner streamId provider model result run) := by
  unfold Kernel.finishAttempt
  split
  · exact concatDeltaText.bind fun _ => terminalCompleted.bind fun _ => sendNotice
  · split
    · exact terminalCancelled.bind fun _ => sendNotice
    · exact terminalFailed.bind fun _ => sendNotice

theorem commitShutdownProgress : Keeps I (commitShutdownProgress run) :=
  now.bind fun _ => transaction.attempt.bind fun _ => .pure _

theorem endAttempt : Keeps I (endAttempt leaseOwner streamId provider model result st) := by
  unfold Kernel.endAttempt
  split
  · exact .fail _
  · split
    · exact commitShutdownProgress
    · exact finishAttempt

theorem proceed {next : RunRow → KernelM Unit} (h : ∀ run, Keeps I (next run)) :
    Keeps I (proceed streamId outcome next) := by
  cases outcome
  case proceed run     => exact h run
  case cancelled       => exact sendNotice
  case alreadyTerminal => exact .pure _

omit [Stable I]

theorem runProvider : Keeps (Failed es)
    (runProvider leaseOwner Kernel.drainPending streamId registry runTimeout run) := by
  have hn : Keeps (Failed es) nextAttempt := ⟨fun _ h => h⟩
  unfold Kernel.runProvider
  dsimp only
  split
  · exact terminalFailed.bind fun _ => sendNotice
  · exact hn.bind fun _ => (generate drainPending).bind fun _ => endAttempt

theorem executeRun : Keeps (Failed es)
    (executeRun leaseOwner Kernel.drainPending streamId registry runTimeout) := by
  refine requireRun.bind fun _ => casStatus.bind fun _ => proceed fun _ => ?_
  exact casStatus.bind fun _ => proceed fun _ => runProvider

end Execute
end Keeps
end Kernel
