import NeoTavern.Kernel.Generation

namespace Kernel

open Wire Storage

def errorDto (code : String) (params : List (String × String)) : ErrorDto where
  code          := code
  params        := params
  traceId       := none
  correlationId := none

def sendCommitted (runId : String) (throughSequence : Int) : KernelM Unit :=
  sendNotice runId <| .committed throughSequence

def sendTerminal (runId : String) (lastSequence : Int) : KernelM Unit :=
  sendNotice runId <| .terminal lastSequence

-- The stored form of an event, after the wire check.
def eventPayload (e : GenerationEvent) : KernelM GenerationEvent := do
  validate checkGenerationEvent e
  return e

section TerminalCancelled

def terminalCancelledTx (run : RunRow) (payload : GenerationEvent)
    (leaseOwner lease updatedAt : String) : Tx Bool := do
  let changed ← Tx.casRun run.runId run.revision fun r => { r with
    status            := .cancelled
    lastEventSequence := run.lastEventSequence + 1
    revision          := r.revision + 1
    leaseOwner        := some leaseOwner
    leaseExpiresAt    := some lease
    updatedAt         := updatedAt
  }
  if changed = 0 then
    return false
  Tx.insertEvent "generation cancelled: terminal event" {
    runId     := run.runId
    sequence  := run.lastEventSequence + 1
    type      := .cancelled
    payload   := payload
    createdAt := updatedAt
  }
  return true

def terminalCancelledLoop (payload : GenerationEvent) (leaseOwner : String) :
    Nat → RunRow → KernelM Int
  | 0,     _   => Proc.fail <| .internal "generation cancelled commit could not make progress"
  | n + 1, run => do
    let updatedAt ← now
    let lease ← leaseExpires
    let applied ← transaction "generation cancelled"
      (fun applied => if applied then .run run.runId (.finish .cancelled) else .idle)
      (terminalCancelledTx run payload leaseOwner lease updatedAt)
    if applied then
      return run.lastEventSequence + 1
    let run ← reload run.runId
    if run.status = .cancelling || run.cancelRequested then
      terminalCancelledLoop payload leaseOwner n run
    else if isTerminal run.status then
      return run.lastEventSequence
    else
      terminalCancelledLoop payload leaseOwner n run

def terminalCancelled (run : RunRow) (leaseOwner : String) : KernelM Int := do
  let payload ← eventPayload .cancelled
  terminalCancelledLoop payload leaseOwner 8 run

end TerminalCancelled

section TerminalFailed

def terminalFailedTx (run : RunRow) (error : ErrorDto) (payload : GenerationEvent)
    (leaseOwner lease updatedAt : String) : Tx Bool := do
  let changed ← Tx.casRun run.runId run.revision fun r => { r with
    status            := .failed
    error             := some error
    lastEventSequence := run.lastEventSequence + 1
    revision          := r.revision + 1
    leaseOwner        := some leaseOwner
    leaseExpiresAt    := some lease
    updatedAt         := updatedAt
  }
  if changed = 0 then
    return false
  Tx.insertEvent "generation failed: terminal event" {
    runId     := run.runId
    sequence  := run.lastEventSequence + 1
    type      := .failed
    payload   := payload
    createdAt := updatedAt
  }
  return true

def terminalFailedLoop (error : ErrorDto) (payload : GenerationEvent) (leaseOwner : String) :
    Nat → RunRow → KernelM Int
  | 0,     _   => Proc.fail <| .internal "generation failed commit could not make progress"
  | n + 1, run => do
    let updatedAt ← now
    let lease ← leaseExpires
    let applied ← transaction "generation failed"
      (fun applied => if applied then .run run.runId (.finish .failed) else .idle)
      (terminalFailedTx run error payload leaseOwner lease updatedAt)
    if applied then
      return run.lastEventSequence + 1
    let run ← reload run.runId
    if run.status = .cancelling || run.cancelRequested then
      terminalCancelled run leaseOwner
    else if isTerminal run.status then
      return run.lastEventSequence
    else
      terminalFailedLoop error payload leaseOwner n run

def terminalFailed (run : RunRow) (error : ErrorDto) (leaseOwner : String) : KernelM Int := do
  let payload ← eventPayload (.failed error)
  terminalFailedLoop error payload leaseOwner 8 run

end TerminalFailed

section TerminalCompleted

def terminalCompletedTx (run : RunRow) (message : MessageRow) (payload : GenerationEvent)
    (leaseOwner lease : String) : Tx Bool := do
  let changed ← Tx.casRun run.runId run.revision fun r => { r with
    status            := .completed
    messageId         := some message.id
    lastEventSequence := run.lastEventSequence + 1
    revision          := r.revision + 1
    leaseOwner        := some leaseOwner
    leaseExpiresAt    := some lease
    updatedAt         := message.createdAt
  }
  if changed = 0 then
    return false
  Tx.insertMessage "generation completed: insert message"
    { message with generationRunId := some run.runId }
  Tx.insertEvent "generation completed: terminal event" {
    runId     := run.runId
    sequence  := run.lastEventSequence + 1
    type      := .completed
    payload   := payload
    createdAt := message.createdAt
  }
  return true

def terminalCompletedLoop (message : MessageRow) (payload : GenerationEvent) (leaseOwner : String) :
    Nat → RunRow → KernelM Int
  | 0,     _   => Proc.fail <| .internal "generation completed commit could not make progress"
  | n + 1, run => do
    let lease ← leaseExpires
    let applied ← transaction "generation completed"
      (fun applied => if applied then .run run.runId (.finish .completed) else .idle)
      (terminalCompletedTx run message payload leaseOwner lease)
    if applied then
      return run.lastEventSequence + 1
    let run ← reload run.runId
    if run.status = .cancelling || run.cancelRequested then
      terminalCancelled run leaseOwner
    else if isTerminal run.status then
      return run.lastEventSequence
    else
      terminalCompletedLoop message payload leaseOwner n run

def messageDto (m : MessageRow) : MessageDto where
  id              := m.id
  chatId          := m.chatId
  role            := m.role
  content         := m.content
  createdAt       := m.createdAt
  sequence        := m.sequence
  generationRunId := m.generationRunId

def terminalCompleted (run : RunRow) (fullText leaseOwner : String) : KernelM Int := do
  let messageId ← newId
  let createdAt ← now
  let sequence ← query "generation completed: message sequence" (·.nextMessageSequence run.chatId)
  let message : MessageRow := {
    id              := messageId
    chatId          := run.chatId
    role            := .assistant
    content         := fullText
    sequence        := sequence
    generationRunId := some run.runId
    createdAt       := createdAt
  }
  validate checkMessageDto <| messageDto message
  let payload ← eventPayload <| .completed <| messageDto message
  terminalCompletedLoop message payload leaseOwner 8 run

end TerminalCompleted

section CasStatus

inductive StepOutcome
  | proceed (run : RunRow)
  | cancelled (sequence : Int)
  | alreadyTerminal

def advanceTx (run : RunRow) (newStatus : GenerationStatus) (leaseOwner lease updatedAt : String) :
    Tx Nat :=
  .casRun run.runId run.revision fun r => { r with
    status         := newStatus
    revision       := r.revision + 1
    leaseOwner     := some leaseOwner
    leaseExpiresAt := some lease
    updatedAt      := updatedAt
  }

def casStatusLoop (newStatus : GenerationStatus) (leaseOwner lease updatedAt : String) :
    Nat → RunRow → KernelM StepOutcome
  | 0,     _   => Proc.fail <| .internal
    s!"generation status transition to {statusName newStatus} could not make progress"
  | n + 1, run => do
    let changed ← transaction "generation: status cas"
      (fun changed => if changed = 0 then .idle else .run run.runId (.advance newStatus))
      (advanceTx run newStatus leaseOwner lease updatedAt)
    if changed ≠ 0 then
      return .proceed (← reload run.runId)
    let run ← reload run.runId
    if run.status = .cancelling || run.cancelRequested then
      return .cancelled (← terminalCancelled run leaseOwner)
    else if isTerminal run.status then
      return .alreadyTerminal
    else
      casStatusLoop newStatus leaseOwner lease updatedAt n run

def casStatus (run : RunRow) (newStatus : GenerationStatus) (leaseOwner : String) :
    KernelM StepOutcome := do
  let updatedAt ← now
  let lease ← leaseExpires
  casStatusLoop newStatus leaseOwner lease updatedAt 8 run

end CasStatus

section CommitDelta

-- Every fourth delta is followed by a checkpoint.
def isCheckpoint (deltaIndex : Nat) : Bool :=
  deltaIndex % 4 = 3

def endSequence (run : RunRow) (deltaIndex : Nat) : Int :=
  if isCheckpoint deltaIndex then run.lastEventSequence + 2 else run.lastEventSequence + 1

def deltaTx (run : RunRow) (text : String) (deltaIndex : Nat) (payload : GenerationEvent)
    (checkpoint : Option GenerationEvent) (leaseOwner lease updatedAt : String) : Tx Bool := do
  let changed ← Tx.casRun run.runId run.revision fun r => { r with
    lastEventSequence := endSequence run deltaIndex
    partialLength     := r.partialLength + text.utf8ByteSize
    revision          := r.revision + 1
    leaseOwner        := some leaseOwner
    leaseExpiresAt    := some lease
    updatedAt         := updatedAt
  }
  if changed = 0 then
    return false
  Tx.insertEvent "generation: delta event" {
    runId     := run.runId
    sequence  := run.lastEventSequence + 1
    type      := .delta
    payload   := payload
    createdAt := updatedAt
  }
  match checkpoint with
  | none            => return true
  | some checkpoint => do
    Tx.insertEvent "generation: checkpoint event" {
      runId     := run.runId
      sequence  := endSequence run deltaIndex
      type      := .checkpoint
      payload   := checkpoint
      createdAt := updatedAt
    }
    return true

def checkpointPayload (run : RunRow) (text : String) (deltaIndex : Nat) :
    KernelM (Option GenerationEvent) :=
  if isCheckpoint deltaIndex then do
    let payload ← eventPayload <|
      .checkpoint (endSequence run deltaIndex) (run.partialLength + text.utf8ByteSize)
    return some payload
  else
    return none

-- The fresh row, or nothing when the row had moved on.
def commitDelta (run : RunRow) (text : String) (deltaIndex : Nat) (leaseOwner : String) :
    KernelM (Option RunRow) := do
  let payload ← eventPayload (.delta text)
  let checkpoint ← checkpointPayload run text deltaIndex
  let updatedAt ← now
  let lease ← leaseExpires
  let applied ← transaction "generation: delta"
    (fun applied => if applied then .run run.runId (.delta text) else .idle)
    (deltaTx run text deltaIndex payload checkpoint leaseOwner lease updatedAt)
  if applied then do
    sendCommitted run.runId <| endSequence run deltaIndex
    let run ← reload run.runId
    return some run
  else
    return none

end CommitDelta

def releaseTx (run : RunRow) (updatedAt : String) : Tx Nat :=
  .casRun run.runId run.revision fun r => { r with
    leaseExpiresAt := none
    revision       := r.revision + 1
    updatedAt      := updatedAt
  }

-- A failure to clear the lease is ignored.
def commitShutdownProgress (run : RunRow) : KernelM Unit := do
  let updatedAt ← now
  let _ ← Proc.attempt <| transaction "generation shutdown: progress commit"
    (fun changed => if changed = 0 then .idle else .run run.runId .release)
    (releaseTx run updatedAt)
  return ()

section Emit

-- What the sink of the adapter keeps between two deltas.
structure EmitState where
  run          : RunRow
  shutdownSeen : Bool := false
  emitError    : Option KernelError := none
  emitted      : Nat := 0

variable (drain : KernelM Bool) (streamId leaseOwner : String)

def emitDelta (text : String) (st : EmitState) : KernelM (EmitStatus × EmitState) := do
  match ← Proc.attempt <| commitDelta st.run text st.emitted leaseOwner with
  | .ok (some next) => return (.continue, { st with run := next, emitted := st.emitted + 1 })
  | .ok none        => return (.continue, { st with emitted := st.emitted + 1 })
  | .error e        => return (.stop, { st with emitError := some e })

-- What follows once the queued commands have been serviced.
def emitServiced (text : String) (st : EmitState) : KernelM (EmitStatus × EmitState) := do
  match ← Proc.attempt <| reload streamId with
  | .error e => return (.stop, { st with emitError := some e })
  | .ok run  =>
    if run.status = .cancelling || run.cancelRequested || isTerminal run.status then
      return (.stop, { st with run })
    else
      emitDelta leaseOwner text { st with run }

def emit (text : String) (st : EmitState) : KernelM (EmitStatus × EmitState) := do
  if ← drain then
    return (.stop, { st with shutdownSeen := true })
  emitServiced streamId leaseOwner text st

-- One attempt of the adapter with `emit` as its sink.
def generate : Attempt → EmitState → KernelM (Except ProviderError Usage × EmitState)
  | .done result, st    => return (result, st)
  | .emit text next, st => do
    let (status, st) ← emit drain streamId leaseOwner text st
    generate (next status) st

end Emit

def snapshotMessage (snapshot : RequestSnapshot) : String :=
  snapshot.message

def findParam (params : List (String × String)) (key : String) : Option String :=
  params.find? (·.fst = key) |>.map (·.snd)

-- The terminal error for a failure of the provider other than a cancel.
def providerFailure (e : ProviderError) (runId provider model : String) : Option ErrorDto :=
  match e.code with
  | .cancelled      => none
  | .stepFailed     => errorDto "PROVIDER_STEP_FAILED" <|
      [("runId", runId)] ++ ((findParam e.params "step").map fun s => ("step", s)).toList
  | .timeout        => errorDto "PROVIDER_TIMEOUT" [("runId", runId)]
  | .networkFault   => errorDto "PROVIDER_NETWORK_FAULT" [("runId", runId)]
  | .unavailable    => errorDto "PROVIDER_UNAVAILABLE" [("provider", provider)]
  | .requestInvalid => errorDto "PROVIDER_MODEL_INVALID"
      [("model", (findParam e.params "model").getD model)]

section Execute

variable (leaseOwner : String)

def finishAttempt (streamId provider model : String) (result : Except ProviderError Usage)
    (run : RunRow) : KernelM Unit := do
  match result with
  | .ok _ => do
    let fullText ← concatDeltaText streamId
    let sequence ← terminalCompleted run fullText leaseOwner
    sendTerminal streamId sequence
  | .error e =>
    match providerFailure e run.runId provider model with
    | none => do
      let sequence ← terminalCancelled run leaseOwner
      sendTerminal streamId sequence
    | some error => do
      let sequence ← terminalFailed run error leaseOwner
      sendTerminal streamId sequence

-- A failed commit wins over whatever the adapter reports.
def endAttempt (streamId provider model : String) (result : Except ProviderError Usage)
    (st : EmitState) : KernelM Unit :=
  match st.emitError with
  | some e => Proc.fail e
  | none   =>
    if st.shutdownSeen then
      commitShutdownProgress st.run
    else
      finishAttempt leaseOwner streamId provider model result st.run

def nextAttempt : KernelM Nat := fun w =>
  (.ok w.attempts, { w with attempts := w.attempts + 1 })

def runProvider (drain : KernelM Bool) (streamId : String) (registry : ProviderRegistry)
    (runTimeout : Nat) (run : RunRow) : KernelM Unit := do
  let providerName := run.provider.getD "fake"
  match registry.find providerName with
  | none => do
    let sequence ← terminalFailed run
      (errorDto "PROVIDER_UNAVAILABLE" [("provider", providerName)]) leaseOwner
    sendTerminal streamId sequence
  | some adapter => do
    let model := run.model.getD ""
    let request : ProviderRequest := {
      providerId := adapter.id
      model      := model
      input      := snapshotMessage run.requestSnapshot
      runKey     := s!"{run.chatId}|{run.attempt}"
      deadline   := some runTimeout
    }
    let attempt ← nextAttempt
    let (result, st) ← generate drain streamId leaseOwner (adapter.generate attempt request) { run }
    endAttempt leaseOwner streamId providerName model result st

-- Runs `next` on the fresh row if the run got to the new status.
def proceed (streamId : String) (outcome : StepOutcome) (next : RunRow → KernelM Unit) :
    KernelM Unit :=
  match outcome with
  | .proceed run        => next run
  | .cancelled sequence => sendTerminal streamId sequence
  | .alreadyTerminal    => return ()

def executeRun (drain : KernelM Bool) (streamId : String) (registry : ProviderRegistry)
    (runTimeout : Nat) : KernelM Unit := do
  let run ← reload streamId
  let outcome ← casStatus run .preparing leaseOwner
  proceed streamId outcome fun run => do
    let outcome ← casStatus run .streaming leaseOwner
    proceed streamId outcome <| runProvider leaseOwner drain streamId registry runTimeout

def executeStream (drain : KernelM Bool) (streamId : String) (registry : ProviderRegistry)
    (runTimeout : Nat) : KernelM Unit := do
  let run ← reload streamId
  -- First step boundary.
  if ← drain then
    commitShutdownProgress run
  else
    executeRun leaseOwner drain streamId registry runTimeout

end Execute

def isStale (now : String) (r : RunRow) : Bool :=
  (r.status = .queued || r.status = .preparing || r.status = .streaming || r.status = .cancelling)
    && r.leaseExpiresAt.all (· < now)

def interrupt (updatedAt : String) (r : RunRow) : RunRow := { r with
  status         := .interrupted
  leaseExpiresAt := none
  revision       := r.revision + 1
  updatedAt      := updatedAt
}

def recoverTx (updatedAt : String) : Tx Nat :=
  .updateRuns (isStale updatedAt) <| interrupt updatedAt

def recover : KernelM Unit := do
  let updatedAt ← now
  let _ ← transaction "generation recovery: interrupt stale runs" (fun _ => .recover)
    (recoverTx updatedAt)
  return ()

end Kernel
