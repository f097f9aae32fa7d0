import NeoTavern.Messages.Repository
import NeoTavern.Prompt.Template

namespace Prompt

open Messages (isTrimmed isBlank)

-- The contracts have no empty identifiers.
abbrev Id := { s : String // s ≠ "" }

def trim (s : String) : String :=
  .ofList <| s.toList.dropWhile isTrimmed |>.reverse.dropWhile isTrimmed |>.reverse

inductive ExtValue
  | string (s : String)
  | other
  deriving DecidableEq

-- The three spellings of the author's note among the extension fields of a character.
structure Ext where
  authors_note : Option ExtValue := none
  author_note  : Option ExtValue := none
  authorsNote  : Option ExtValue := none
  deriving DecidableEq

structure Character where
  description             : String := ""
  personality             : String := ""
  scenario                : String := ""
  exampleDialogues        : String := ""
  systemPrompt            : Option String := none
  postHistoryInstructions : Option String := none
  ext                     : Ext := {}
  deriving DecidableEq

structure Persona where
  name        : String
  description : String
  deriving DecidableEq

inductive PersonaPlacement
  | persona
  | authorsNoteTop
  | authorsNoteBottom
  | inChat
  deriving DecidableEq

inductive Placement
  | before
  | after
  deriving DecidableEq

inductive ContextSource
  | lorebook
  | memory
  deriving DecidableEq

structure PipelineContextBlock where
  id        : Id
  source    : ContextSource
  placement : Option Placement := none
  content   : String
  required  : Option Bool := none
  deriving DecidableEq

structure Meta where
  pinned         : Bool := false
  manualExcluded : Bool := false
  toolCallId     : Option String := none
  tool_call_id   : Option String := none
  callId         : Option String := none
  deriving DecidableEq

structure Message where
  id       : Id
  role     : MessageRole
  content  : String
  name     : Option String := none
  metaJson : Meta := {}
  deriving DecidableEq

def readPairId (m : Meta) : Option String :=
  [m.toolCallId, m.tool_call_id, m.callId].findSome? fun value => value.filter (· ≠ "")

-- What the assembly reads of the input of a run.
structure PromptInput where
  character        : Option Character := none
  persona          : Option Persona := none
  contextBlocks    : List PipelineContextBlock := []
  history          : List Message := []
  userInput        : Option String := none
  model            : String := ""
  promptTemplate   : Option PromptTemplate := none
  generationType   : Option PromptTriggerId := none
  personaPlacement : Option PersonaPlacement := none
  -- The macros of the run, at its fixed context.
  replaceMacros    : String → String := id

abbrev Buckets := CorePromptBlockId → List PromptMessage

namespace Buckets

def push (b : Buckets) (blockId : CorePromptBlockId) (m : PromptMessage) : Buckets :=
  Function.update b blockId (b blockId ++ [m])

def unshift (b : Buckets) (blockId : CorePromptBlockId) (m : PromptMessage) : Buckets :=
  Function.update b blockId (m :: b blockId)

end Buckets

section Buckets

variable (input : PromptInput)

def systemMessage (id content : String) : PromptMessage where
  id      := some id
  role    := .system
  content := input.replaceMacros content
  pinned  := true
  source  := some .system

def addSystemBlock (blockId : CorePromptBlockId) (id : String) (content : Option String)
    (b : Buckets) : Buckets :=
  match content with
  | none         => b
  | some content => if isBlank content then b else b.push blockId <| systemMessage input id content

-- The system prompt of a character stands in for the main prompt unless the block forbids it.
def mainPrompt (mainBlock : Option PromptBlockSettings) (character : Character) : Option String :=
  let configuredMainPrompt := (mainBlock.bind (·.content)).or defaultMainBlock.content
  let characterOverride := character.systemPrompt.map trim
  if truthy characterOverride && !(mainBlock.bind (·.forbidOverrides)).getD false then
    character.systemPrompt
  else
    configuredMainPrompt

def addCharacter (mainBlock : Option PromptBlockSettings) (b : Buckets) : Buckets :=
  match input.character with
  | none           => b
  | some character =>
    let b := addSystemBlock input .mainPrompt "core.main-prompt" (mainPrompt mainBlock character) b
    let b := addSystemBlock input .characterDescription "core.character-description"
      (some character.description) b
    let b := addSystemBlock input .characterPersonality "core.character-personality"
      (some character.personality) b
    let b := addSystemBlock input .scenario "core.scenario" (some character.scenario) b
    addSystemBlock input .dialogueExamples "core.dialogue-examples"
      (some character.exampleDialogues) b

def personaText : Option String :=
  (input.persona.filter fun p => !isBlank p.description).map fun p =>
    s!"The user is {p.name}: {p.description}"

def addPersona (b : Buckets) : Buckets :=
  match personaText input with
  | none      => b
  | some text =>
    match input.personaPlacement.getD .persona with
    | .persona => addSystemBlock input .persona "core.persona" (some text) b
    | .inChat  => b.unshift .chatHistory <| systemMessage input "core.persona-in-chat" text
    | _        => b

def contextMessage (block : PipelineContextBlock) : PromptMessage where
  id      := some block.id
  role    := .system
  content := trim <| input.replaceMacros block.content
  pinned  := block.required = some true
  source  := some <| match block.source with
    | .lorebook => .lorebook
    | .memory   => .memory

def addContextBlock (b : Buckets) (block : PipelineContextBlock) : Buckets :=
  let message := contextMessage input block
  if message.content = "" then
    b
  else
    let blockId := match block.source with
      | .memory   => .memory
      | .lorebook => if block.placement = some .after then .worldInfoAfter else .worldInfoBefore
    b.push blockId message

def historyMessage (message : Message) : PromptMessage :=
  let isCurrentHistoryInput := input.userInput.isNone &&
    (input.history.getLast?.map (·.id)) = some message.id && message.role = .user
  {
    id      := some message.id
    role    := message.role
    content := input.replaceMacros message.content
    name    := message.name
    pinned  := message.metaJson.pinned || isCurrentHistoryInput
    pairId  := readPairId message.metaJson
    source  := some <| if isCurrentHistoryInput then .user else .history
  }

def addHistory (b : Buckets) (message : Message) : Buckets :=
  b.push .chatHistory <| historyMessage input message

def addUserInput (b : Buckets) : Buckets :=
  match input.userInput with
  | none           => b
  | some userInput =>
    if isBlank userInput then b
    else b.push .chatHistory {
      id      := some "core.current-user-input"
      role    := .user
      content := input.replaceMacros userInput
      pinned  := true
      source  := some .user
    }

def authorNote : String :=
  let ext := (input.character.map (·.ext)).getD {}
  match ext.authors_note.or <| ext.author_note.or ext.authorsNote with
  | some (.string s) => s
  | _                => ""

def mergedAuthorNote : String :=
  match personaText input, input.personaPlacement with
  | some description, some .authorsNoteTop    => trim s!"{description}\n{authorNote input}"
  | some description, some .authorsNoteBottom => trim s!"{authorNote input}\n{description}"
  | _,                _                       => authorNote input

def addAuthorNote (b : Buckets) : Buckets :=
  if mergedAuthorNote input = "" then b
  else addSystemBlock input .authorsNote "core.authors-note" (some <| mergedAuthorNote input) b

-- The template of a run: the one of the input if it is complete.
def promptTemplate : PromptTemplate :=
  match input.promptTemplate with
  | none          => defaultPromptTemplate
  | some template =>
    if hasRequiredPromptBlocks template then
      { template with blocks := normalizePromptBlockOrder template.blocks }
    else
      defaultPromptTemplate

def configuredBlocks : List PromptBlockSettings :=
  if (promptTemplate input).mode = .text then (promptTemplate input).blocks
  else defaultPromptTemplate.blocks

def buckets : Buckets :=
  let mainBlock := (configuredBlocks input).find? (·.id = .core .mainPrompt)
  let b := addPersona input <| addCharacter input mainBlock fun _ => []
  let b := input.contextBlocks.foldl (addContextBlock input) b
  let b := addUserInput input <| input.history.foldl (addHistory input) b
  let b := addSystemBlock input .postHistoryInstructions "core.character-post-history-instructions"
    (input.character.bind (·.postHistoryInstructions)) b
  let b := if (promptTemplate input).mode = .text then
    addSystemBlock input .postHistoryInstructions "core.template-post-history-instructions"
      (some (promptTemplate input).postHistoryInstructions) b
    else b
  addAuthorNote input b

end Buckets

section Blocks

variable (input : PromptInput)

def preparePromptBlockMessages (block : PromptBlockSettings) : List PromptMessage :=
  match block.id with
  | .custom _ =>
    match block.content with
    | none         => []
    | some content =>
      if isBlank content then []
      else [{
        id      := some ("template." ++ block.id.text)
        name    := block.name
        role    := block.role.getD .system
        content := input.replaceMacros content
        source  := some .template
      }]
  | .core id =>
    match block.role with
    | none      => buckets input id
    | some role =>
      if id = .chatHistory || id = .dialogueExamples then buckets input id
      else (buckets input id).map fun m => { m with role }

structure PreparedBlock where
  block           : PromptBlockSettings
  configuredIndex : Nat
  messages        : List PromptMessage
  active          : Bool
  modelMatches    : Bool
  inChat          : Bool

def prepareBlock (block : PromptBlockSettings) (configuredIndex : Nat) : PreparedBlock :=
  let triggerMatches := block.triggers.all fun triggers =>
    triggers.isEmpty || triggers.contains (input.generationType.getD .normal)
  let modelMatches := !truthy block.model || block.model = some input.model
  {
    block
    configuredIndex
    messages := preparePromptBlockMessages input block
    active   := block.enabled && triggerMatches && modelMatches
    modelMatches
    inChat   := block.id ≠ .core .chatHistory && block.injectionPosition = some .inChat
  }

def preparedBlocks : List PreparedBlock :=
  (configuredBlocks input).zipIdx.map fun (block, i) => prepareBlock input block i

end Blocks

inductive PromptContextExclusionReason
  | disabled
  | empty
  | manual
  | contextShift
  | finalBudget
  | interceptor
  | modelMismatch
  | none
  deriving DecidableEq

structure PromptAuditJournalItem where
  blockId         : PromptBlockId
  message         : PromptMessage
  exclusionReason : PromptContextExclusionReason
  deriving DecidableEq

def exclusionReasonForBlock (prepared : PreparedBlock) : PromptContextExclusionReason :=
  if prepared.modelMatches then .disabled else .modelMismatch

def journalOf (prepared : PreparedBlock) : List PromptAuditJournalItem :=
  match prepared.messages with
  | [] => [{
      blockId := prepared.block.id
      message := {
        id      := some ("block." ++ prepared.block.id.text)
        role    := .system
        content := ""
        source  := some .system
      }
      exclusionReason := if prepared.active then .empty else exclusionReasonForBlock prepared
    }]
  | messages => messages.map fun message => {
      blockId         := prepared.block.id
      message
      exclusionReason := if prepared.active then .none else exclusionReasonForBlock prepared
    }

section InChat

def roleOrder : MessageRole → Nat
  | .assistant => 0
  | .user      => 1
  | .system    => 2
  | .tool      => 3
  | .plugin    => 4

structure Insertion where
  message         : PromptMessage
  injectionOrder  : Nat
  configuredIndex : Nat

def Insertion.le (left right : Insertion) : Bool :=
  left.injectionOrder < right.injectionOrder ||
    left.injectionOrder = right.injectionOrder &&
      (roleOrder left.message.role < roleOrder right.message.role ||
        roleOrder left.message.role = roleOrder right.message.role &&
          left.configuredIndex ≤ right.configuredIndex)

def boundaryOf (history : List PromptMessage) (injection : PreparedBlock) : Nat :=
  history.length - injection.block.injectionDepth.getD 4

def insertionsAt (history : List PromptMessage) (injections : List PreparedBlock) (boundary : Nat) :
    List Insertion :=
  (injections.filter (boundaryOf history · = boundary)).flatMap fun injection =>
    injection.messages.map fun message => {
      message
      injectionOrder  := injection.block.injectionOrder.getD 100
      configuredIndex := injection.configuredIndex
    }

def mergeInChatPrompts (history : List PromptMessage) (injections : List PreparedBlock) :
    List PromptMessage :=
  (List.range (history.length + 1)).flatMap fun boundary =>
    ((insertionsAt history injections boundary).mergeSort Insertion.le).map (·.message) ++
      history[boundary]?.toList

end InChat

structure PromptAssembly where
  messages : List PromptMessage
  journal  : List PromptAuditJournalItem

def assemblePromptMessages (input : PromptInput) : PromptAssembly :=
  let prepared := preparedBlocks input
  let inChatBlocks := prepared.filter fun p => p.active && p.inChat
  {
    messages := prepared.flatMap fun p =>
      if p.block.id = .core .chatHistory then
        mergeInChatPrompts (if p.active then p.messages else []) inChatBlocks
      else if p.active && !p.inChat then
        p.messages
      else
        []
    journal := prepared.flatMap journalOf
  }

end Prompt
