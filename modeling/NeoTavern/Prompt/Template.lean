import Mathlib
import NeoTavern.Prompt.ContextShift

namespace Prompt

-- The host-owned prompt sources.
inductive CorePromptBlockId
  | mainPrompt
  | worldInfoBefore
  | persona
  | characterDescription
  | characterPersonality
  | scenario
  | worldInfoAfter
  | dialogueExamples
  | memory
  | authorsNote
  | chatHistory
  | postHistoryInstructions
  deriving DecidableEq

def CorePromptBlockId.text : CorePromptBlockId → String
  | .mainPrompt              => "main-prompt"
  | .worldInfoBefore         => "world-info-before"
  | .persona                 => "persona"
  | .characterDescription    => "character-description"
  | .characterPersonality    => "character-personality"
  | .scenario                => "scenario"
  | .worldInfoAfter          => "world-info-after"
  | .dialogueExamples        => "dialogue-examples"
  | .memory                  => "memory"
  | .authorsNote             => "authors-note"
  | .chatHistory             => "chat-history"
  | .postHistoryInstructions => "post-history-instructions"

def promptBlockIds : List CorePromptBlockId := [
  .mainPrompt, .worldInfoBefore, .persona, .characterDescription, .characterPersonality, .scenario,
  .worldInfoAfter, .dialogueExamples, .memory, .authorsNote, .chatHistory, .postHistoryInstructions
]

-- A custom block has the identifier `custom-` and the rest.
inductive PromptBlockId
  | core (id : CorePromptBlockId)
  | custom (rest : String)
  deriving DecidableEq

def PromptBlockId.text : PromptBlockId → String
  | .core id     => id.text
  | .custom rest => "custom-" ++ rest

inductive PromptInjectionPosition
  | relative
  | inChat
  deriving DecidableEq

inductive PromptTriggerId
  | normal
  | continue
  | impersonate
  | swipe
  | regenerate
  | quiet
  deriving DecidableEq

structure PromptBlockSettings where
  id                : PromptBlockId
  enabled           : Bool
  name              : Option String := none
  role              : Option MessageRole := none
  content           : Option String := none
  injectionPosition : Option PromptInjectionPosition := none
  injectionDepth    : Option Nat := none
  injectionOrder    : Option Nat := none
  triggers          : Option (List PromptTriggerId) := none
  model             : Option String := none
  forbidOverrides   : Option Bool := none
  deriving DecidableEq

inductive PromptTemplateMode
  | chat
  | text
  deriving DecidableEq

structure PromptTemplate where
  mode                    : PromptTemplateMode
  blocks                  : List PromptBlockSettings
  postHistoryInstructions : String
  deriving DecidableEq

def defaultMainBlock : PromptBlockSettings where
  id                := .core .mainPrompt
  enabled           := true
  role              := some .system
  content           :=
    some "Write \x7b\x7bchar\x7d\x7d's next reply in a fictional chat between \x7b\x7bchar\x7d\x7d and \x7b\x7buser\x7d\x7d."
  injectionPosition := some .relative
  triggers          := some [.normal, .continue, .impersonate, .swipe, .regenerate, .quiet]
  forbidOverrides   := some false

def defaultPromptTemplate : PromptTemplate where
  mode                    := .chat
  blocks                  := promptBlockIds.map fun id =>
    if id = .mainPrompt then defaultMainBlock else { id := .core id, enabled := true }
  postHistoryInstructions :=
    "Keep the roleplay engaging. Drive the story forward proactively while staying in character."

def hasRequiredPromptBlocks (template : PromptTemplate) : Bool :=
  let ids := template.blocks.map (·.id)
  promptBlockIds.length ≤ template.blocks.length && ids.dedup.length = template.blocks.length &&
    promptBlockIds.all fun id => ids.contains (.core id)

def terminalPromptBlockIds : List PromptBlockId :=
  [.core .chatHistory, .core .postHistoryInstructions]

def normalizePromptBlockOrder (blocks : List PromptBlockSettings) : List PromptBlockSettings :=
  blocks.filter (·.id ∉ terminalPromptBlockIds) ++
    terminalPromptBlockIds.flatMap fun id => (blocks.find? (·.id = id)).toList

-- The blocks of a prompt: each identifier stands at most once, and the chat history is one of them.
structure CompleteBlocks (blocks : List PromptBlockSettings) : Prop where
  nodup       : (blocks.map (·.id)).Nodup
  chatHistory : .core .chatHistory ∈ blocks.map (·.id)

theorem defaultPromptTemplate_complete : CompleteBlocks defaultPromptTemplate.blocks :=
  ⟨by decide, by decide⟩

theorem hasRequiredPromptBlocks_nodup {template : PromptTemplate}
    (h : hasRequiredPromptBlocks template) : (template.blocks.map (·.id)).Nodup := by
  simp only [hasRequiredPromptBlocks, Bool.and_eq_true, decide_eq_true_eq] at h
  rw [← List.dedup_eq_self]
  refine (List.dedup_sublist _).eq_of_length ?_
  rw [h.left.right, List.length_map]

theorem normalizePromptBlockOrder_complete {template : PromptTemplate}
    (h : hasRequiredPromptBlocks template) :
    CompleteBlocks (normalizePromptBlockOrder template.blocks) := by
  have hn := hasRequiredPromptBlocks_nodup h
  have hfind (id : CorePromptBlockId) : ∃ b, template.blocks.find? (·.id = .core id) = some b ∧
      b.id = .core id := by
    simp only [hasRequiredPromptBlocks, Bool.and_eq_true, List.all_eq_true, List.contains_iff_mem,
      List.mem_map] at h
    obtain ⟨b, hb, hi⟩ := h.right id (by cases id <;> decide)
    cases hf : template.blocks.find? (·.id = .core id)
    case none =>
      have := List.find?_eq_none.mp hf b hb
      simp [hi] at this
    case some b' => exact ⟨b', rfl, by simpa using List.find?_some hf⟩
  obtain ⟨c, hc, hci⟩ := hfind .chatHistory
  obtain ⟨p, hp, hpi⟩ := hfind .postHistoryInstructions
  have he : normalizePromptBlockOrder template.blocks =
      template.blocks.filter (·.id ∉ terminalPromptBlockIds) ++ [c, p] := by
    simp [normalizePromptBlockOrder, terminalPromptBlockIds, hc, hp]
  rw [he]
  constructor
  case nodup =>
    rw [List.map_append, List.nodup_append]
    refine ⟨hn.sublist <| List.filter_sublist.map _, by simp [hci, hpi], ?_⟩
    intro i hi j hj
    simp only [List.mem_map, List.mem_filter, terminalPromptBlockIds] at hi
    simp only [List.map_cons, hci, hpi] at hj
    grind
  case chatHistory => simp [hci]

end Prompt
