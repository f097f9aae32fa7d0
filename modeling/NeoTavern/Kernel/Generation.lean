import NeoTavern.Kernel.World

namespace Kernel

open Wire Storage

def statusName : GenerationStatus → String
  | .queued      => "queued"
  | .preparing   => "preparing"
  | .streaming   => "streaming"
  | .completed   => "completed"
  | .failed      => "failed"
  | .cancelling  => "cancelling"
  | .cancelled   => "cancelled"
  | .interrupted => "interrupted"

def runNotFound (runId : String) : KernelError :=
  .ofProduct "GENERATION_RUN_NOT_FOUND" [("runId", runId)]

def stateConflict (runId : String) (status : GenerationStatus) : KernelError :=
  .ofProduct "GENERATION_RUN_STATE_CONFLICT" [("runId", runId), ("status", statusName status)]

def noPartialOutput (runId : String) : KernelError :=
  .ofProduct "NO_PARTIAL_OUTPUT" [("runId", runId)]

def isRecoverable (status : GenerationStatus) : Bool :=
  status = .failed || status = .cancelled || status = .interrupted

def ensureRecoverable (run : RunRow) : KernelM Unit :=
  if isRecoverable run.status then return () else Proc.fail <| stateConflict run.runId run.status

def isTerminal (status : GenerationStatus) : Bool :=
  status = .completed || status = .failed || status = .cancelled || status = .interrupted

-- The states from which a cancel request moves a run to `cancelling`.
def isCancellable (status : GenerationStatus) : Bool :=
  status = .queued || status = .preparing || status = .streaming

def loadRun (runId : String) : KernelM (Option RunRow) :=
  query "generation: load run" (·.runs.get? runId)

def requireRun (runId : String) (missing : KernelError) : KernelM RunRow := do
  match ← loadRun runId with
  | some run => return run
  | none     => Proc.fail missing

def reload (runId : String) : KernelM RunRow :=
  requireRun runId <| .internal s!"generation run vanished during execution: {runId}"

def deltaText : GenerationEvent → Except KernelError String
  | .delta text => .ok text
  | _           => .error <| .internal "generation.delta event row carries unexpected type"

def loadDeltaTexts (runId : String) : KernelM (List String) := do
  let payloads ← query "generation: delta texts" (·.deltaPayloads runId)
  Proc.ofExcept <| payloads.mapM deltaText

def concatDeltaText (runId : String) : KernelM String := do
  let texts ← loadDeltaTexts runId
  return String.join texts

def partialPreviewLen : Nat := 4096

-- The wire form of a run whose committed deltas spell `full`.
def renderRun (run : RunRow) (full : String) : GenerationRun where
  runId             := run.runId
  sourceRunId       := run.sourceRunId
  chatId            := run.chatId
  attempt           := run.attempt
  status            := run.status
  provider          := run.provider
  model             := run.model
  revision          := run.revision
  lastEventSequence := run.lastEventSequence
  partialTextLength := run.partialLength
  partialText       :=
    if run.partialLength > 0 then some <| .ofList <| full.toList.take partialPreviewLen else none
  partialTruncated  := run.partialLength > partialPreviewLen
  error             := run.error
  messageId         := run.messageId
  leaseExpiresAt    := run.leaseExpiresAt
  startedAt         := run.startedAt
  updatedAt         := run.updatedAt

def runToDto (run : RunRow) : KernelM GenerationRun := do
  let full ← concatDeltaText run.runId
  return renderRun run full

def runResponse (run : RunRow) : KernelM GenerationRun := do
  let dto ← runToDto run
  validate checkGenerationRun dto
  return dto

section Cancel

def cancelTx (run : RunRow) (updatedAt : String) : Tx Nat :=
  .casRun run.runId run.revision fun r => { r with
    status          := .cancelling
    cancelRequested := true
    revision        := r.revision + 1
    updatedAt       := updatedAt
  }

def cancelLoop (runId updatedAt : String) : Nat → RunRow → KernelM Unit
  | 0,     _   => Proc.fail <| .internal "generation cancel could not make progress"
  | n + 1, run =>
    if isCancellable run.status then do
      let changed ← transaction "generation_cancel"
        (fun changed => if changed = 0 then .idle else .run runId .cancel) (cancelTx run updatedAt)
      if changed = 0 then
        -- The row moved on. It is read again and the new state decides.
        cancelLoop runId updatedAt n (← reload runId)
      else
        return ()
    else if run.status = .cancelling then
      return ()
    else
      Proc.fail <| stateConflict runId run.status

def generationCancel (request : Payload RequestWorkflow) : KernelM Unit := do
  let req ← decodeRequest checkRequestWorkflow request
  let run ← requireRun req.workflowId <| runNotFound req.workflowId
  let updatedAt ← now
  cancelLoop req.workflowId updatedAt 8 run

end Cancel

def generationGet (request : Payload RequestWorkflow) : KernelM GenerationRun := do
  let req ← decodeRequest checkRequestWorkflow request
  let run ← requireRun req.workflowId <| runNotFound req.workflowId
  runResponse run

structure EventEnvelope where
  streamId : String
  sequence : Int
  type     : EventType
  payload  : GenerationEvent
  deriving DecidableEq

structure PagedGenerationEvents where
  items   : List EventEnvelope
  hasMore : Bool
  deriving DecidableEq

def pageLimit (limit : Option Int) : Nat :=
  (max 1 <| min 200 <| limit.getD 50).toNat

-- `SELECT … WHERE run_id = ? AND sequence > ? ORDER BY sequence LIMIT ?`.
def eventsAfter (db : Db) (runId : String) (after : Int) (limit : Nat) : List EventRow :=
  (db.eventsOf runId).filter (after < ·.sequence) |>.mergeSort (·.sequence ≤ ·.sequence)
    |>.take limit

def generationEvents (request : Payload RequestListGenerationEvents) :
    KernelM PagedGenerationEvents := do
  let req ← decodeRequest checkRequestListGenerationEvents request
  let _ ← requireRun req.workflowId <| runNotFound req.workflowId
  let limit := pageLimit req.limit
  -- One row past the page tells whether there is more.
  let rows ← query "generation_events"
    (eventsAfter · req.workflowId (req.afterSequence.getD (-1)) (limit + 1))
  return {
    items   := rows.take limit |>.map fun e => ⟨req.workflowId, e.sequence, e.type, e.payload⟩
    hasMore := limit < rows.length
  }

section Keep

def keepTx (run : RunRow) (chatId messageId createdAt fullText : String) : Tx Bool := do
  let changed ← Tx.casRun run.runId run.revision fun r => { r with
    messageId := some messageId
    revision  := r.revision + 1
    updatedAt := createdAt
  }
  if changed = 0 then
    return false
  let sequence ← Proc.gets (·.nextMessageSequence chatId)
  Tx.insertMessage "generation_keep: insert message" {
    id              := messageId
    chatId          := chatId
    role            := .assistant
    content         := fullText
    sequence        := sequence
    generationRunId := some run.runId
    createdAt       := createdAt
  }
  return true

def keepLoop (chatId messageId createdAt fullText : String) : Nat → RunRow → KernelM Unit
  | 0,     _   => return ()
  | n + 1, run => do
    let kept ← transaction "generation_keep"
      (fun kept => if kept then .run run.runId .keep else .idle)
      (keepTx run chatId messageId createdAt fullText)
    if kept then
      return ()
    let run ← reload run.runId
    ensureRecoverable run
    if run.messageId.isSome then
      return ()
    if run.partialLength = 0 then
      Proc.fail <| noPartialOutput run.runId
    keepLoop chatId messageId createdAt fullText n run

def generationKeep (request : Payload RequestWorkflow) : KernelM GenerationRun := do
  let req ← decodeRequest checkRequestWorkflow request
  let run ← requireRun req.workflowId <| runNotFound req.workflowId
  ensureRecoverable run
  if run.messageId.isSome then
    runResponse run
  else if run.partialLength = 0 then
    Proc.fail <| noPartialOutput req.workflowId
  else do
    let fullText ← concatDeltaText req.workflowId
    let messageId ← newId
    let createdAt ← now
    keepLoop run.chatId messageId createdAt fullText 8 run
    let run ← reload req.workflowId
    if run.messageId.isNone then
      Proc.fail <| .internal "generation keep could not make progress"
    runResponse run

end Keep

section Discard

def discardTx (run : RunRow) (updatedAt : String) : Tx Bool := do
  let changed ← Tx.casRun run.runId run.revision fun r => { r with
    partialLength := 0
    revision      := r.revision + 1
    updatedAt     := updatedAt
  }
  if changed = 0 then
    return false
  Tx.deleteEvents run.runId
  return true

def discardLoop (updatedAt : String) : Nat → RunRow → KernelM Unit
  | 0,     _   => return ()
  | n + 1, run => do
    let discarded ← transaction "generation_discard"
      (fun discarded => if discarded then .run run.runId .discard else .idle)
      (discardTx run updatedAt)
    if discarded then
      return ()
    let run ← reload run.runId
    ensureRecoverable run
    discardLoop updatedAt n run

def generationDiscard (request : Payload RequestWorkflow) : KernelM GenerationRun := do
  let req ← decodeRequest checkRequestWorkflow request
  let run ← requireRun req.workflowId <| runNotFound req.workflowId
  ensureRecoverable run
  let updatedAt ← now
  discardLoop updatedAt 8 run
  let run ← reload req.workflowId
  if run.partialLength ≠ 0 then
    Proc.fail <| .internal "generation discard could not make progress"
  runResponse run

end Discard

section Start

def snapshotJson (req : RequestStartGeneration) : RequestSnapshot where
  chatId   := req.chatId
  message  := req.message
  provider := req.provider
  model    := req.model

-- What `generation.start` and `generation.retry` settle before the run is created.
structure StreamSetup where
  sourceRunId : Option String
  chatId      : String
  attempt     : Int
  provider    : Option String
  model       : Option String
  snapshot    : RequestSnapshot

def streamSetup : StreamOp → KernelM StreamSetup
  | .start request => do
    let req ← decodeRequest checkRequestStartGeneration request
    let chat ← query "messages_list: chat existence" (·.chats.get? req.chatId)
    if chat.isNone then
      Proc.fail <| .ofProduct "CHAT_NOT_FOUND" [("chatId", req.chatId)]
    return {
      sourceRunId := none
      chatId      := req.chatId
      attempt     := 1
      provider    := req.provider
      model       := req.model
      snapshot    := snapshotJson req
    }
  | .retry request => do
    let req ← decodeRequest checkRequestRetryGeneration request
    let source ← requireRun req.sourceRunId <| runNotFound req.sourceRunId
    ensureRecoverable source
    return {
      sourceRunId := some source.runId
      chatId      := source.chatId
      attempt     := source.attempt + 1
      provider    := source.provider
      model       := source.model
      snapshot    := source.requestSnapshot
    }
  | .other name => Proc.fail {
      code    := .operationNotFound
      message := s!"operation {name} must use dispatch"
    }

def newRun (runId : String) (setup : StreamSetup) (leaseOwner lease createdAt : String) :
    RunRow where
  runId             := runId
  sourceRunId       := setup.sourceRunId
  chatId            := setup.chatId
  attempt           := setup.attempt
  status            := .queued
  provider          := setup.provider
  model             := setup.model
  requestSnapshot   := setup.snapshot
  revision          := 0
  cancelRequested   := false
  lastEventSequence := -1
  partialLength     := 0
  error             := none
  messageId         := none
  leaseOwner        := some leaseOwner
  leaseExpiresAt    := some lease
  startedAt         := createdAt
  updatedAt         := createdAt

def streamStart (op : StreamOp) (leaseOwner : String) : KernelM String := do
  let runId ← newId
  let setup ← streamSetup op
  let createdAt ← now
  let lease ← leaseExpires
  transaction "generation stream: insert run" (fun _ => .start runId) <|
    Tx.insertRun "generation stream: insert run" <| newRun runId setup leaseOwner lease createdAt
  return runId

end Start
end Kernel
