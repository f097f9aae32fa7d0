import NeoTavern.Wire.Format

namespace Wire

structure Issue where
  path : String
  rule : String
  deriving DecidableEq

inductive WireErrorKind
  | parse
  | violation
  | internal
  deriving DecidableEq

structure WireError where
  kind    : WireErrorKind
  message : String
  issues  : List Issue := []
  deriving DecidableEq

def joinPath (path key : String) : String :=
  path ++ (if path.isEmpty then "" else "/") ++ key

section Checks

variable {α : Type} (path : String)

def checkFormat (format : String → Bool) (s : String) : List Issue :=
  if format s then [] else [⟨path, "StringFormat"⟩]

def checkMinLength (min : Nat) (s : String) : List Issue :=
  if utf16Length s < min then [⟨path, "StringMinLength"⟩] else []

def checkMaxLength (max : Nat) (s : String) : List Issue :=
  if utf16Length s > max then [⟨path, "StringMaxLength"⟩] else []

def checkLength (min max : Nat) (s : String) : List Issue :=
  checkMinLength path min s ++ checkMaxLength path max s

def checkMinimum (min : Int) (n : Int) : List Issue :=
  if n < min then [⟨path, "IntegerMinimum"⟩] else []

def checkMaximum (max : Int) (n : Int) : List Issue :=
  if n > max then [⟨path, "IntegerMaximum"⟩] else []

def checkMaxItems (max : Nat) (xs : List α) : List Issue :=
  if xs.length > max then [⟨path, "ArrayMaxItems"⟩] else []

def checkEach (check : String → α → List Issue) (xs : List α) : List Issue :=
  xs.zipIdx.flatMap fun (x, i) => check s!"{path}[{i}]" x

end Checks

-- A property that is left out when it is absent is checked only when it is there.
def checkOptional {α : Type} (check : α → List Issue) : Option α → List Issue
  | none   => []
  | some a => check a

theorem checkFormat_eq_nil_iff : checkFormat path format s = [] ↔ format s := by
  simp [checkFormat]

theorem checkMaxLength_eq_nil_iff {max : Nat} :
    checkMaxLength path max s = [] ↔ utf16Length s ≤ max := by
  simp [checkMaxLength]

theorem checkMinimum_eq_nil_iff {min : Int} : checkMinimum path min n = [] ↔ min ≤ n := by
  simp [checkMinimum]

inductive MessageRole
  | system
  | user
  | assistant
  | tool
  deriving DecidableEq

structure MessageDto where
  id              : String
  chatId          : String
  role            : MessageRole
  content         : String
  createdAt       : String
  sequence        : Int
  generationRunId : Option String
  deriving DecidableEq

def maxMessageLength : Nat := 1000000

def checkMessageDto (m : MessageDto) (path : String) : List Issue :=
  checkFormat (joinPath path "id") isUuid m.id ++
  checkFormat (joinPath path "chatId") isUuid m.chatId ++
  checkMaxLength (joinPath path "content") maxMessageLength m.content ++
  checkFormat (joinPath path "createdAt") isDateTime m.createdAt ++
  checkMinimum (joinPath path "sequence") 0 m.sequence ++
  checkOptional (checkFormat (joinPath path "generationRunId") isUuid) m.generationRunId

theorem checkMessageDto_eq_nil_iff : checkMessageDto m path = [] ↔
    isUuid m.id ∧ isUuid m.chatId ∧ utf16Length m.content ≤ maxMessageLength ∧
    isDateTime m.createdAt ∧ 0 ≤ m.sequence ∧ ∀ i ∈ m.generationRunId, isUuid i := by
  cases h : m.generationRunId <;>
    simp [checkMessageDto, checkOptional, h, checkFormat_eq_nil_iff, checkMaxLength_eq_nil_iff,
      checkMinimum_eq_nil_iff]

structure ErrorDto where
  code          : String
  params        : List (String × String)
  traceId       : Option String
  correlationId : Option String
  deriving DecidableEq

def checkErrorDto (e : ErrorDto) (path : String) : List Issue :=
  checkLength (joinPath path "code") 1 64 e.code ++
  checkOptional (checkFormat (joinPath path "correlationId") isUuid) e.correlationId

inductive EventType
  | delta
  | checkpoint
  | completed
  | failed
  | cancelled
  | consumerLagged
  deriving DecidableEq

inductive GenerationEvent
  | delta (text : String)
  | checkpoint (sequence partialLength : Int)
  | completed (finalMessage : MessageDto)
  | failed (error : ErrorDto)
  | cancelled
  | consumerLagged (dropped : Int)
  deriving DecidableEq

namespace GenerationEvent

def type : GenerationEvent → EventType
  | delta _          => .delta
  | checkpoint _ _   => .checkpoint
  | completed _      => .completed
  | failed _         => .failed
  | cancelled        => .cancelled
  | consumerLagged _ => .consumerLagged

end GenerationEvent

def maxDeltaLength : Nat := 4096

def checkGenerationEvent (e : GenerationEvent) (path : String) : List Issue :=
  match e with
  | .delta text             => checkMaxLength (joinPath path "text") maxDeltaLength text
  | .checkpoint seq len     =>
    checkMinimum (joinPath path "sequence") 0 seq ++
    checkMinimum (joinPath path "partialLength") 0 len
  | .completed message      => checkMessageDto message (joinPath path "finalMessage")
  | .failed error           => checkErrorDto error (joinPath path "error")
  | .cancelled              => []
  | .consumerLagged dropped => checkMinimum (joinPath path "dropped") 0 dropped

inductive GenerationStatus
  | queued
  | preparing
  | streaming
  | completed
  | failed
  | cancelling
  | cancelled
  | interrupted
  deriving DecidableEq

structure GenerationRun where
  runId             : String
  sourceRunId       : Option String
  chatId            : String
  attempt           : Int
  status            : GenerationStatus
  provider          : Option String
  model             : Option String
  revision          : Int
  lastEventSequence : Int
  partialTextLength : Int
  partialText       : Option String
  partialTruncated  : Bool
  error             : Option ErrorDto
  messageId         : Option String
  leaseExpiresAt    : Option String
  startedAt         : String
  updatedAt         : String
  deriving DecidableEq

def checkGenerationRun (r : GenerationRun) (path : String) : List Issue :=
  checkFormat (joinPath path "runId") isUuid r.runId ++
  checkOptional (checkFormat (joinPath path "sourceRunId") isUuid) r.sourceRunId ++
  checkFormat (joinPath path "chatId") isUuid r.chatId ++
  checkMinimum (joinPath path "attempt") 1 r.attempt ++
  checkOptional (checkLength (joinPath path "provider") 1 128) r.provider ++
  checkOptional (checkLength (joinPath path "model") 1 128) r.model ++
  checkMinimum (joinPath path "revision") 0 r.revision ++
  checkMinimum (joinPath path "lastEventSequence") (-1) r.lastEventSequence ++
  checkMinimum (joinPath path "partialTextLength") 0 r.partialTextLength ++
  checkOptional (checkMaxLength (joinPath path "partialText") 4096) r.partialText ++
  checkOptional (checkErrorDto · (joinPath path "error")) r.error ++
  checkOptional (checkFormat (joinPath path "messageId") isUuid) r.messageId ++
  checkOptional (checkFormat (joinPath path "leaseExpiresAt") isDateTime) r.leaseExpiresAt ++
  checkFormat (joinPath path "startedAt") isDateTime r.startedAt ++
  checkFormat (joinPath path "updatedAt") isDateTime r.updatedAt

structure CharacterDto where
  id            : String
  name          : String
  description   : Option String
  avatarAssetId : Option String
  tags          : List String
  createdAt     : String
  updatedAt     : String
  deriving DecidableEq

def checkTags (path : String) (tags : List String) : List Issue :=
  checkMaxItems path 32 tags ++ checkEach path (checkLength · 1 64) tags

def checkCharacterDto (c : CharacterDto) (path : String) : List Issue :=
  checkFormat (joinPath path "id") isUuid c.id ++
  checkLength (joinPath path "name") 1 120 c.name ++
  checkOptional (checkMaxLength (joinPath path "description") 10000) c.description ++
  checkOptional (checkFormat (joinPath path "avatarAssetId") isUuid) c.avatarAssetId ++
  checkTags (joinPath path "tags") c.tags ++
  checkFormat (joinPath path "createdAt") isDateTime c.createdAt ++
  checkFormat (joinPath path "updatedAt") isDateTime c.updatedAt

-- The requests of generation.cancel, get, keep and discard have this shape.
structure RequestWorkflow where
  workflowId : String
  deriving DecidableEq

def checkRequestWorkflow (r : RequestWorkflow) (path : String) : List Issue :=
  checkFormat (joinPath path "workflowId") isUuid r.workflowId

structure RequestListGenerationEvents where
  workflowId    : String
  afterSequence : Option Int
  limit         : Option Int
  deriving DecidableEq

def checkRequestListGenerationEvents (r : RequestListGenerationEvents) (path : String) :
    List Issue :=
  checkFormat (joinPath path "workflowId") isUuid r.workflowId ++
  checkOptional (checkMinimum (joinPath path "afterSequence") (-1)) r.afterSequence ++
  checkOptional (fun n => checkMinimum (joinPath path "limit") 1 n ++
    checkMaximum (joinPath path "limit") 200 n) r.limit

structure RequestStartGeneration where
  chatId   : String
  message  : String
  provider : Option String
  model    : Option String
  deriving DecidableEq

def checkRequestStartGeneration (r : RequestStartGeneration) (path : String) : List Issue :=
  checkFormat (joinPath path "chatId") isUuid r.chatId ++
  checkLength (joinPath path "message") 1 100000 r.message ++
  checkOptional (checkLength (joinPath path "provider") 1 128) r.provider ++
  checkOptional (checkLength (joinPath path "model") 1 128) r.model

structure RequestRetryGeneration where
  sourceRunId : String
  deriving DecidableEq

def checkRequestRetryGeneration (r : RequestRetryGeneration) (path : String) : List Issue :=
  checkFormat (joinPath path "sourceRunId") isUuid r.sourceRunId

structure RequestCreateCharacter where
  name        : String
  description : Option String
  tags        : Option (List String)
  deriving DecidableEq

def checkRequestCreateCharacter (r : RequestCreateCharacter) (path : String) : List Issue :=
  checkLength (joinPath path "name") 1 120 r.name ++
  checkOptional (checkMaxLength (joinPath path "description") 10000) r.description ++
  checkOptional (checkTags (joinPath path "tags")) r.tags

structure RequestUpdateCharacter where
  characterId : String
  name        : Option String
  description : Option String
  tags        : Option (List String)
  deriving DecidableEq

def checkRequestUpdateCharacter (r : RequestUpdateCharacter) (path : String) : List Issue :=
  checkFormat (joinPath path "characterId") isUuid r.characterId ++
  checkOptional (checkLength (joinPath path "name") 1 120) r.name ++
  checkOptional (checkMaxLength (joinPath path "description") 10000) r.description ++
  checkOptional (checkTags (joinPath path "tags")) r.tags

structure RequestDeleteCharacter where
  characterId : String
  deriving DecidableEq

def checkRequestDeleteCharacter (r : RequestDeleteCharacter) (path : String) : List Issue :=
  checkFormat (joinPath path "characterId") isUuid r.characterId

-- The bytes of a request after JSON parsing: an object of the expected shape, or the failure that
-- parsing or the shape rules report.
inductive Payload (α : Type)
  | malformed (e : WireError)
  | object (req : α)
  deriving DecidableEq

def decode {α : Type} (check : α → String → List Issue) : Payload α → Except WireError α
  | .malformed e => .error e
  | .object req  =>
    match check req "" with
    | []     => .ok req
    | issues => .error {
        kind    := .violation
        message := "payload violates wire contract"
        issues
      }

theorem decode_eq_ok_iff {α : Type} {r : α} {check : α → String → List Issue} {p : Payload α} :
    decode check p = .ok r ↔ p = .object r ∧ check r "" = [] := by
  cases p
  case malformed => simp [decode]
  case object req =>
    simp only [decode]
    split <;> simp_all
    · rintro rfl; assumption
    · rintro rfl; assumption

end Wire

namespace Wire

structure ChatDto where
  id           : String
  title        : String
  characterId  : String
  messageCount : Int
  createdAt    : String
  updatedAt    : String
  deriving DecidableEq

def checkChatDto (c : ChatDto) (path : String) : List Issue :=
  checkFormat (joinPath path "id") isUuid c.id ++
  checkLength (joinPath path "title") 1 200 c.title ++
  checkFormat (joinPath path "characterId") isUuid c.characterId ++
  checkMinimum (joinPath path "messageCount") 0 c.messageCount ++
  checkFormat (joinPath path "createdAt") isDateTime c.createdAt ++
  checkFormat (joinPath path "updatedAt") isDateTime c.updatedAt

-- The cursors of requests and of pages have this shape.
def checkCursor (path : String) : Option String → List Issue :=
  checkOptional (checkLength path 1 256)

def checkPageLimit (path : String) : Option Int → List Issue :=
  checkOptional fun n => checkMinimum path 1 n ++ checkMaximum path 200 n

structure RequestListChats where
  characterId : Option String
  cursor      : Option String
  limit       : Option Int
  deriving DecidableEq

def checkRequestListChats (r : RequestListChats) (path : String) : List Issue :=
  checkOptional (checkFormat (joinPath path "characterId") isUuid) r.characterId ++
  checkCursor (joinPath path "cursor") r.cursor ++
  checkPageLimit (joinPath path "limit") r.limit

structure PagedChats where
  items      : List ChatDto
  nextCursor : Option String
  deriving DecidableEq

def checkPagedChats (p : PagedChats) (path : String) : List Issue :=
  checkEach (joinPath path "items") (fun path c => checkChatDto c path) p.items ++
  checkCursor (joinPath path "nextCursor") p.nextCursor

structure RequestListMessages where
  chatId : String
  cursor : Option String
  limit  : Option Int
  deriving DecidableEq

def checkRequestListMessages (r : RequestListMessages) (path : String) : List Issue :=
  checkFormat (joinPath path "chatId") isUuid r.chatId ++
  checkCursor (joinPath path "cursor") r.cursor ++
  checkPageLimit (joinPath path "limit") r.limit

structure PagedMessages where
  items      : List MessageDto
  nextCursor : Option String
  deriving DecidableEq

def checkPagedMessages (p : PagedMessages) (path : String) : List Issue :=
  checkEach (joinPath path "items") (fun path m => checkMessageDto m path) p.items ++
  checkCursor (joinPath path "nextCursor") p.nextCursor

theorem checkOptional_eq_nil_iff {check : α → List Issue} :
    checkOptional check o = [] ↔ ∀ a ∈ o, check a = [] := by
  cases o <;> simp [checkOptional]

theorem checkMinLength_eq_nil_iff {min : Nat} :
    checkMinLength path min s = [] ↔ min ≤ utf16Length s := by
  simp [checkMinLength]

theorem checkLength_eq_nil_iff {min max : Nat} :
    checkLength path min max s = [] ↔ min ≤ utf16Length s ∧ utf16Length s ≤ max := by
  simp [checkLength, checkMinLength_eq_nil_iff, checkMaxLength_eq_nil_iff]

theorem checkMaximum_eq_nil_iff {max : Int} : checkMaximum path max n = [] ↔ n ≤ max := by
  simp [checkMaximum]

theorem checkEach_eq_nil_iff {check : String → α → List Issue} {P : α → Prop}
    (h : ∀ path a, check path a = [] ↔ P a) : checkEach path check xs = [] ↔ ∀ a ∈ xs, P a := by
  simp only [checkEach, List.flatMap_eq_nil_iff, h]
  constructor
  case mp =>
    intro hall a ha
    obtain ⟨i, hi, rfl⟩ := List.getElem_of_mem ha
    exact hall (xs[i], i) <| List.mk_mem_zipIdx_iff_getElem?.mpr <| List.getElem?_eq_getElem hi
  case mpr =>
    intro hall p hp
    exact hall p.fst <| List.fst_mem_of_mem_zipIdx hp

theorem checkPageLimit_eq_nil_iff : checkPageLimit path limit = [] ↔ ∀ n ∈ limit, 1 ≤ n ∧ n ≤ 200 := by
  simp [checkPageLimit, checkOptional_eq_nil_iff, checkMinimum_eq_nil_iff, checkMaximum_eq_nil_iff]

theorem checkCursor_eq_nil_iff :
    checkCursor path cursor = [] ↔ ∀ c ∈ cursor, 1 ≤ utf16Length c ∧ utf16Length c ≤ 256 := by
  simp [checkCursor, checkOptional_eq_nil_iff, checkLength_eq_nil_iff]

theorem checkRequestListChats_eq_nil_iff : checkRequestListChats r path = [] ↔
    (∀ i ∈ r.characterId, isUuid i) ∧
    (∀ c ∈ r.cursor, 1 ≤ utf16Length c ∧ utf16Length c ≤ 256) ∧
    ∀ n ∈ r.limit, 1 ≤ n ∧ n ≤ 200 := by
  simp only [checkRequestListChats, List.append_eq_nil_iff, checkOptional_eq_nil_iff,
    checkFormat_eq_nil_iff, checkCursor_eq_nil_iff, checkPageLimit_eq_nil_iff, and_assoc]

-- What the checks of a chat ask does not depend on where it stands.
theorem checkChatDto_eq_nil_iff : checkChatDto c path = [] ↔ checkChatDto c "" = [] := by
  simp only [checkChatDto, List.append_eq_nil_iff, checkFormat_eq_nil_iff, checkLength_eq_nil_iff,
    checkMinimum_eq_nil_iff]

theorem checkPagedChats_eq_nil_iff : checkPagedChats p path = [] ↔
    (∀ c ∈ p.items, checkChatDto c "" = []) ∧
    ∀ c ∈ p.nextCursor, 1 ≤ utf16Length c ∧ utf16Length c ≤ 256 := by
  have heach (path : String) : checkEach path (fun path c => checkChatDto c path) p.items = [] ↔
      ∀ c ∈ p.items, checkChatDto c "" = [] :=
    checkEach_eq_nil_iff fun _ _ => checkChatDto_eq_nil_iff
  simp only [checkPagedChats, List.append_eq_nil_iff, checkCursor_eq_nil_iff, heach]

theorem checkRequestListMessages_eq_nil_iff : checkRequestListMessages r path = [] ↔
    isUuid r.chatId ∧ (∀ c ∈ r.cursor, 1 ≤ utf16Length c ∧ utf16Length c ≤ 256) ∧
    ∀ n ∈ r.limit, 1 ≤ n ∧ n ≤ 200 := by
  simp only [checkRequestListMessages, List.append_eq_nil_iff, checkFormat_eq_nil_iff,
    checkCursor_eq_nil_iff, checkPageLimit_eq_nil_iff, and_assoc]

theorem checkPagedMessages_eq_nil_iff : checkPagedMessages p path = [] ↔
    (∀ m ∈ p.items, checkMessageDto m "" = []) ∧
    ∀ c ∈ p.nextCursor, 1 ≤ utf16Length c ∧ utf16Length c ≤ 256 := by
  have heach (path : String) : checkEach path (fun path m => checkMessageDto m path) p.items = [] ↔
      ∀ m ∈ p.items, checkMessageDto m "" = [] :=
    checkEach_eq_nil_iff fun _ _ => checkMessageDto_eq_nil_iff.trans checkMessageDto_eq_nil_iff.symm
  simp only [checkPagedMessages, List.append_eq_nil_iff, checkCursor_eq_nil_iff, heach]

theorem checkRequestListGenerationEvents_eq_nil_iff :
    checkRequestListGenerationEvents r path = [] ↔
    isUuid r.workflowId ∧ (∀ n ∈ r.afterSequence, -1 ≤ n) ∧ ∀ n ∈ r.limit, 1 ≤ n ∧ n ≤ 200 := by
  simp [checkRequestListGenerationEvents, checkOptional_eq_nil_iff, checkFormat_eq_nil_iff,
    checkMinimum_eq_nil_iff, checkMaximum_eq_nil_iff]

end Wire
