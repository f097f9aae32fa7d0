import NeoTavern.Prompt.Journal

namespace Prompt

structure ContextStrategyRequest where
  messages          : List PromptMessage
  countTokens       : TokenCounter
  budgetTokens      : Int
  manualExcludedIds : List String

-- A strategy, possibly of a plugin. `none` stands for one that throws or hangs.
structure ContextShiftStrategy where
  id    : String
  shift : ContextStrategyRequest → Option ContextShiftResult

-- A hook of a plugin. `none` stands for one that throws or hangs.
structure PipelineInterceptor where
  id                 : String
  priority           : Option Int := none
  requiredPermission : Option String := none
  intercept          : List PromptMessage → Option (List PromptMessage)

structure PipelineInput extends PromptInput where
  maxContextTokens  : Option Int := none
  reserveForReply   : Option Int := none
  -- `maxTokens` of the overrides of the generation.
  maxTokens         : Option Int := none
  interceptors      : List PipelineInterceptor := []
  hasPermission     : Option (String → Bool) := none
  countTokens       : TokenCounter
  contextStrategy   : Option ContextShiftStrategy := none
  manualExcludedIds : Option (List String) := none
  -- Whether the signal is aborted, each time the run looks at it.
  aborted           : Nat → Bool := fun _ => false

inductive PipelineError
  | generationCancelled
  | tokenBudgetExceeded (contextLimit reservedForReply promptTokens : Int)
  deriving DecidableEq

abbrev Pipeline := Except PipelineError

def idsOf (messages : List PromptMessage) : List String :=
  messages.filterMap (·.id)

-- The last message of a list that has the identifier.
def byId (messages : List PromptMessage) (id : String) : Option PromptMessage :=
  messages.reverse.find? (·.id = some id)

-- The messages that the host defends against plugins.
def isHostProtected (m : PromptMessage) : Bool :=
  m.pinned || (m.role = .system && m.source = some .system)

def dedupeLoop : List String → List Nat → List PromptMessage → List PromptMessage
  | _,       _,           []      => []
  | seenIds, seenObjects, m :: ms =>
    match m.id.filter (· ≠ "") with
    | some id =>
      if id ∈ seenIds then dedupeLoop seenIds seenObjects ms
      else m :: dedupeLoop (id :: seenIds) seenObjects ms
    | none    =>
      if m.object ∈ seenObjects then dedupeLoop seenIds seenObjects ms
      else m :: dedupeLoop seenIds (m.object :: seenObjects) ms

def dedupePromptMessages (messages : List PromptMessage) : List PromptMessage :=
  dedupeLoop [] [] messages

-- Puts a protected message back, before the next message of the original list that is there.
def restoreMessage (output : List PromptMessage) (presentIds : List String) (m : PromptMessage)
    (following : List PromptMessage) : List PromptMessage :=
  let nextId := (idsOf following).find? (· ∈ presentIds)
  if truthy nextId then
    output.insertIdx (output.findIdx (·.id = nextId)) m
  else
    output.insertIdx output.length m

def restoreLoop : List PromptMessage → List PromptMessage → List String → List PromptMessage
  | [],             output, _          => output
  | m :: following, output, presentIds =>
    match m.id with
    | none    => restoreLoop following output presentIds
    | some id =>
      if id = "" || id ∈ presentIds || !isHostProtected m then
        restoreLoop following output presentIds
      else
        restoreLoop following (restoreMessage output presentIds m following) (presentIds ++ [id])

def restoreProtectedMessages (candidate original : List PromptMessage) : List PromptMessage :=
  restoreLoop original candidate <| idsOf candidate

section Strategy

variable (input : PipelineInput)

def contextLimit : Int :=
  input.maxContextTokens.getD 8192

def requestedMaxTokens : Int :=
  input.maxTokens.getD <| input.reserveForReply.getD 1024

def reserve : Int :=
  max (input.reserveForReply.getD 0) (requestedMaxTokens input)

def promptBudget : Int :=
  contextLimit input - reserve input

def tokenBudgetError (promptTokens : Int) : PipelineError :=
  .tokenBudgetExceeded (contextLimit input) (reserve input) promptTokens

def ensureFitsBudget (shift : ContextShiftResult) : Pipeline Unit :=
  if shift.fitsBudget then .ok () else .error <| tokenBudgetError input shift.estimatedTokens

def ensureNotAborted (checkpoint : Nat) : Pipeline Unit :=
  if input.aborted checkpoint then .error .generationCancelled else .ok ()

def manualExcludedIds : List String :=
  input.manualExcludedIds.getD <|
    (input.history.filter (·.metaJson.manualExcluded)).map (·.id.val)

def shift (messages : List PromptMessage) : ContextShiftResult :=
  shiftContext input.countTokens messages (promptBudget input)

def truncation (raw : List PromptMessage) : ContextShiftResult :=
  { shift input raw with strategy := some "truncate" }

def runContextStrategy (strategy : ContextShiftStrategy) (raw : List PromptMessage) :
    ContextShiftResult :=
  (strategy.shift {
    messages          := raw
    countTokens       := input.countTokens
    budgetTokens      := promptBudget input
    manualExcludedIds := manualExcludedIds input
  }).getD <| truncation input raw

def offeredResult (raw : List PromptMessage) : ContextShiftResult :=
  match input.contextStrategy with
  | some strategy => runContextStrategy input strategy raw
  | none          => shift input raw

-- The answer of the strategy, unless it drops a protected message.
def strategyResult (raw : List PromptMessage) : ContextShiftResult :=
  let protectedIds := idsOf <| raw.filter isHostProtected
  let returnedIds := idsOf (offeredResult input raw).kept
  if protectedIds.any (· ∉ returnedIds) then truncation input raw else offeredResult input raw

-- In place of a protected message, whatever the strategy made of it, stands the one of the host.
def hostVersion (raw : List PromptMessage) (m : PromptMessage) : PromptMessage :=
  match m.id.filter (· ≠ "") with
  | some id => (byId (raw.filter isHostProtected) id).getD m
  | none    => m

def sanitizedStrategyMessages (raw : List PromptMessage) : List PromptMessage :=
  dedupePromptMessages <| (strategyResult input raw).kept.map <| hostVersion raw

def initialShift (raw : List PromptMessage) : ContextShiftResult :=
  let result := strategyResult input raw
  let hostChecked := shift input <| sanitizedStrategyMessages input raw
  { hostChecked with
    excluded  := dedupePromptMessages <| result.excluded ++ hostChecked.excluded
    truncated := result.truncated || hostChecked.truncated
    strategy  := (result.strategy.or <| input.contextStrategy.map (·.id)).or <| some "truncate"
  }

end Strategy

section Interceptors

variable (input : PipelineInput) (host : List PromptMessage)

-- What a plugin returns keeps the flags that the host gave to the message of that identifier.
def relabel (m : PromptMessage) : PromptMessage :=
  match m.id.filter (· ≠ "") with
  | some id => { m with
      pinned := (byId host id).any (·.pinned)
      source := some <| ((byId host id).bind (·.source)).getD .plugin
    }
  | none    => { m with pinned := false, source := some .plugin }

def isPermitted (interceptor : PipelineInterceptor) : Bool :=
  !truthy interceptor.requiredPermission ||
    match input.hasPermission, interceptor.requiredPermission with
    | some hasPermission, some permission => hasPermission permission
    | _,                  _               => true

def applyInterceptor (working : List PromptMessage) (interceptor : PipelineInterceptor) :
    List PromptMessage :=
  if isPermitted input interceptor then
    match interceptor.intercept working with
    | some messages => restoreProtectedMessages (messages.map <| relabel host) host
    | none          => working
  else
    working

def sortedInterceptors : List PipelineInterceptor :=
  input.interceptors.mergeSort fun a b => a.priority.getD 100 ≤ b.priority.getD 100

def runInterceptors : List PipelineInterceptor → Nat → List PromptMessage →
    Pipeline (List PromptMessage)
  | [],      _, working => .ok working
  | i :: is, n, working => do
    ensureNotAborted input n
    runInterceptors is (n + 1) (applyInterceptor input host working i)

end Interceptors

-- What a run goes through.
structure Stages where
  assembly     : PromptAssembly
  initialShift : ContextShiftResult
  working      : List PromptMessage
  finalShift   : ContextShiftResult

def runStages (input : PipelineInput) : Pipeline Stages := do
  if promptBudget input ≤ 0 then
    .error <| tokenBudgetError input 0
  let assembly := assemblePromptMessages input.toPromptInput
  ensureNotAborted input 0
  let initial := initialShift input assembly.messages
  ensureFitsBudget input initial
  let working ← runInterceptors input initial.kept (sortedInterceptors input) 1 initial.kept
  ensureNotAborted input (input.interceptors.length + 1)
  let finalShift := shift input working
  ensureFitsBudget input finalShift
  return { assembly, initialShift := initial, working, finalShift }

end Prompt
