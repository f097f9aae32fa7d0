import NeoTavern.Prompt.Pipeline

namespace Prompt

structure PromptContextAuditEntry where
  identifier      : String
  name            : Option String
  role            : MessageRole
  source          : PromptSource
  content         : String
  tokens          : Nat
  included        : Bool
  exclusionReason : PromptContextExclusionReason
  order           : Nat
  -- The message that the entry was made from, which is not part of the record.
  message         : PromptMessage
  deriving DecidableEq

structure Classified where
  message         : PromptMessage
  name            : Option String
  included        : Bool
  exclusionReason : PromptContextExclusionReason
  deriving DecidableEq

-- The identifiers of the journal, without those that stand for empty blocks.
def assembledIds (journal : List PromptAuditJournalItem) : List String :=
  (idsOf <| journal.map (·.message)).filter fun id => !id.startsWith "block."

section Classify

-- `removed` are the places of `afterInterceptors` that the final shift excluded.
variable (initiallyExcluded afterInterceptors : List PromptMessage) (removed : List Nat)
  (finalShift : ContextShiftResult) (manualExcludedIds : List String)

def hasIdOf (messages : List PromptMessage) (m : PromptMessage) : Bool :=
  m.id.any (· ∈ idsOf messages)

def currentMessage (m : PromptMessage) : PromptMessage :=
  match m.id.filter (· ≠ "") with
  | some id => ((byId finalShift.kept id).or (byId afterInterceptors id)).getD m
  | none    => m

-- A journal message has an identifier, so looking it up among the objects finds nothing more.
def classifyItem (item : PromptAuditJournalItem) : Classified :=
  let current := currentMessage afterInterceptors finalShift item.message
  let classified (included : Bool) (exclusionReason : PromptContextExclusionReason) : Classified := {
    message := current
    name    := current.name.or <| some item.blockId.text
    included
    exclusionReason
  }
  if item.exclusionReason ≠ .none then
    classified false item.exclusionReason
  else if hasIdOf initiallyExcluded item.message then
    classified false <|
      if item.message.id.any (· ∈ manualExcludedIds) then .manual else .contextShift
  else if hasIdOf finalShift.excluded item.message then
    classified false .finalBudget
  else if hasIdOf finalShift.kept item.message then
    classified true .none
  else if !hasIdOf afterInterceptors item.message then
    classified false .interceptor
  else
    classified false .none

def classifyWorking (message : PromptMessage) (place : Nat) : Classified :=
  let included := hasIdOf finalShift.kept message || place ∉ removed
  let finalExcluded := hasIdOf finalShift.excluded message || place ∈ removed
  {
    message
    name            := message.name.filter (· ≠ "")
    included
    exclusionReason := if included then .none else if finalExcluded then .finalBudget else .interceptor
  }

def isAssembled (journal : List PromptAuditJournalItem) (m : PromptMessage) : Bool :=
  truthy m.id && m.id.any (· ∈ assembledIds journal)

def classify (journal : List PromptAuditJournalItem) : List Classified :=
  journal.map (classifyItem initiallyExcluded afterInterceptors finalShift manualExcludedIds) ++
    (afterInterceptors.zipIdx.filter fun (m, _) => !isAssembled journal m).map
      fun (m, place) => classifyWorking removed finalShift m place

end Classify

def maxAuditEntries : Nat := 500

def auditEntry (countTokens : TokenCounter) (item : Classified) (order : Nat) :
    PromptContextAuditEntry where
  identifier      := item.message.id.getD s!"pipeline.{order}"
  name            := item.name.filter (· ≠ "")
  role            := item.message.role
  source          := item.message.source.getD .system
  content         := item.message.content
  tokens          := if item.message.content = "" then 0 else countTokens item.message.content + 4
  included        := item.included
  exclusionReason := item.exclusionReason
  order           := order
  message         := item.message

def buildPromptAuditEntries (journal : List PromptAuditJournalItem)
    (initiallyExcluded afterInterceptors : List PromptMessage) (removed : List Nat)
    (finalShift : ContextShiftResult) (manualExcludedIds : List String)
    (countTokens : TokenCounter) : List PromptContextAuditEntry :=
  (classify initiallyExcluded afterInterceptors removed finalShift manualExcludedIds journal).take
    maxAuditEntries |>.zipIdx.map fun (item, order) => auditEntry countTokens item order

structure GenerationMessage where
  role    : MessageRole
  content : String
  name    : Option String
  deriving DecidableEq

structure TokenBudget where
  contextLimit     : Int
  reservedForReply : Int
  promptTokens     : Nat
  deriving DecidableEq

structure PipelineResult where
  messages        : List GenerationMessage
  excludedCount   : Nat
  auditEntries    : List PromptContextAuditEntry
  tokenBudget     : TokenBudget
  contextStrategy : String
  deriving DecidableEq

def generationMessage (m : PromptMessage) : GenerationMessage where
  role    := m.role
  content := m.content
  name    := m.name.filter (· ≠ "")

def pipelineResult (input : PipelineInput) (s : Stages) : PipelineResult where
  messages        := s.finalShift.kept.map generationMessage
  excludedCount   := s.initialShift.excluded.length + s.finalShift.excluded.length
  auditEntries    := buildPromptAuditEntries s.assembly.journal s.initialShift.excluded s.working
    (removedBy input.countTokens s.working (promptBudget input)) s.finalShift
    (manualExcludedIds input) input.countTokens
  tokenBudget     := ⟨contextLimit input, reserve input, s.finalShift.estimatedTokens⟩
  contextStrategy := s.initialShift.strategy.getD "truncate"

def runPromptPipeline (input : PipelineInput) : Pipeline PipelineResult := do
  let stages ← runStages input
  return pipelineResult input stages

end Prompt
