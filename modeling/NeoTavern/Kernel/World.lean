import NeoTavern.Lib.Journal
import NeoTavern.Storage.Database
import NeoTavern.Wire.Instants
import NeoTavern.Wire.Time

namespace Kernel

open Wire Storage

inductive KernelErrorCode
  | contractMismatch
  | contractViolation
  | operationNotFound
  | unauthorized
  | internal
  | cancelled
  | dataRootInUse
  | storageFailure
  | notFound
  | conflict
  | providerError
  deriving DecidableEq

structure KernelError where
  code    : KernelErrorCode
  message : String
  issues  : List Issue := []
  params  : List (String × String) := []
  product : Option ErrorDto := none
  deriving DecidableEq

namespace KernelError

-- The class of a product error is read off its wire code.
def productCode (code : String) : KernelErrorCode :=
  if code.endsWith "_NOT_FOUND" then .notFound
  else if code.startsWith "PROVIDER_" then .providerError
  else .conflict

def ofProduct (code : String) (params : List (String × String)) : KernelError where
  code    := productCode code
  message := s!"product error {code}"
  product := some { code, params, traceId := none, correlationId := none }

def internal (message : String) : KernelError where
  code    := .internal
  message := message

def ofWire (e : WireError) : KernelError where
  code    := .contractViolation
  message := e.message
  issues  := e.issues

def ofStorage (e : StorageError) : KernelError where
  code    := if e.code = .dataRootInUse then .dataRootInUse else .storageFailure
  message := s!"storage: {e.message}"

end KernelError

-- What the adapter of a provider does in one attempt: it emits deltas, each time learning whether
-- to go on, and ends with a result. It may do whatever it likes after a `stop`.
inductive EmitStatus
  | continue
  | stop
  deriving DecidableEq

inductive ProviderErrorCode
  | timeout
  | cancelled
  | unavailable
  | requestInvalid
  | stepFailed
  | networkFault
  deriving DecidableEq

structure ProviderError where
  code      : ProviderErrorCode
  message   : String
  params    : List (String × String) := []
  retryable : Bool := false
  deriving DecidableEq

structure Usage where
  steps       : Nat
  outputChars : Nat
  deriving DecidableEq

inductive Attempt
  | done (result : Except ProviderError Usage)
  | emit (text : String) (next : EmitStatus → Attempt)

structure ProviderRequest where
  providerId : String
  model      : String
  input      : String
  runKey     : String
  deadline   : Option Nat
  deriving DecidableEq

-- `generate n` is the behaviour in the `n`-th attempt that the kernel makes. What an adapter learns
-- from its cancel token, its deadline or the network is part of that choice.
structure ProviderAdapter where
  id       : String
  generate : Nat → ProviderRequest → Attempt

abbrev ProviderRegistry := List ProviderAdapter

def ProviderRegistry.find (registry : ProviderRegistry) (id : String) : Option ProviderAdapter :=
  List.find? (fun a => a.id = id) registry

inductive StreamNotice
  | committed (throughSequence : Int)
  | terminal (lastSequence : Int)
  deriving DecidableEq

-- The operations that run to their end on the writer thread. Those that touch none of the tables
-- are `other`, with whatever they answer.
inductive UnaryOp
  | charactersCreate (req : Payload RequestCreateCharacter)
  | charactersUpdate (req : Payload RequestUpdateCharacter)
  | charactersDelete (req : Payload RequestDeleteCharacter)
  | generationCancel (req : Payload RequestWorkflow)
  | generationGet (req : Payload RequestWorkflow)
  | generationEvents (req : Payload RequestListGenerationEvents)
  | generationKeep (req : Payload RequestWorkflow)
  | generationDiscard (req : Payload RequestWorkflow)
  | other (result : Except KernelError Unit)
  deriving DecidableEq

inductive StreamOp
  | start (req : Payload RequestStartGeneration)
  | retry (req : Payload RequestRetryGeneration)
  | other (name : String)
  deriving DecidableEq

inductive Command
  | unary (op : UnaryOp) (cancelled : Bool)
  | stream (op : StreamOp)
  | setRunTimeout (millis : Nat)
  | shutdown
  deriving DecidableEq

-- What a committed transaction did to one run.
inductive Act
  | cancel
  | advance (status : GenerationStatus)
  | delta (text : String)
  | finish (status : GenerationStatus)
  | release
  | keep
  | discard
  | interrupt
  deriving DecidableEq

-- What a committed transaction did. No code reads it.
inductive Label
  | start (runId : String)
  | run (runId : String) (act : Act)
  | recover
  | drop (characterId : String)
  | product
  | idle
  deriving DecidableEq

-- What the kernel finds outside: the readings of the clock, the identifiers it draws and the
-- failures of the storage operations, each in the order in which they are asked for.
structure Env where
  clock : Nat → OffsetDateTime
  uuid  : Nat → UuidV7
  fault : Nat → Option SqliteFailure

structure World where
  journal    : Journal Label Db
  env        : Env
  ticks      : Nat := 0
  drawn      : Nat := 0
  ops        : Nat := 0
  attempts   : Nat := 0
  -- The commands that arrive, grouped by the moment at which the writer looks.
  inbox      : List (List Command)
  pending    : List Command := []
  stop       : Bool := false
  runTimeout : Nat := 60000
  notices    : List (String × StreamNotice) := []
  failures   : List StorageError := []

def World.db (w : World) : Db :=
  w.journal.state

abbrev KernelM := Proc World KernelError

def utcNow : KernelM OffsetDateTime := fun w =>
  (.ok <| w.env.clock w.ticks, { w with ticks := w.ticks + 1 })

def now : KernelM String := do
  let t ← utcNow
  return t.format

def leaseGraceSeconds : Fin 60 := 30

def leaseExpires : KernelM String := do
  let t ← utcNow
  match t.addSeconds leaseGraceSeconds with
  | some expires => return expires.format
  | none         => now

def newId : KernelM String := fun w =>
  (.ok <| Wire.newId <| w.env.uuid w.drawn, { w with drawn := w.drawn + 1 })

def storageFailure (e : StorageError) : KernelM α := fun w =>
  (.error <| .ofStorage e, { w with failures := e :: w.failures })

-- A storage operation, unless the environment makes it fail.
def faulty (context : String) (p : KernelM α) : KernelM α := fun w =>
  let w' := { w with ops := w.ops + 1 }
  match w.env.fault w.ops with
  | some f => storageFailure (.fromSqlite f context) w'
  | none   => p w'

def query (context : String) (f : Db → α) : KernelM α :=
  faulty context <| Proc.gets fun w => f w.db

-- `Database::transaction`: all of `body` or nothing.
def transaction (context : String) (label : α → Label) (body : Tx α) : KernelM α :=
  faulty context fun w =>
    match body w.db with
    | (.ok a, db)   => (.ok a, { w with journal := w.journal.push (label a) db })
    | (.error e, _) => storageFailure e w

def validate {α : Type} (check : α → String → List Issue) (dto : α) : KernelM Unit :=
  match check dto "" with
  | []     => return ()
  | issues => Proc.fail {
      code    := .contractViolation
      message := "response dto failed wire validation"
      issues
    }

def decodeRequest {α : Type} (check : α → String → List Issue) (p : Payload α) : KernelM α :=
  match decode check p with
  | .ok req  => return req
  | .error e => Proc.fail <| .ofWire e

def sendNotice (runId : String) (n : StreamNotice) : KernelM Unit :=
  Proc.modify fun w => { w with notices := (runId, n) :: w.notices }

end Kernel

namespace Kernel

open Wire OffsetDateTime

variable {w w₁ w₂ : World} {t₁ t₂ e : OffsetDateTime}

theorem now_eq : (now w).fst = .ok (w.env.clock w.ticks).format :=
  rfl

theorem leaseExpires_eq (h : (w.env.clock w.ticks).addSeconds leaseGraceSeconds = some e) :
    (leaseExpires w).fst = .ok e.format := by
  have hrun : leaseExpires w = (match (w.env.clock w.ticks).addSeconds leaseGraceSeconds with
    | some expires => pure expires.format
    | none         => now : KernelM String) { w with ticks := w.ticks + 1 } := rfl
  rw [hrun, h]
  rfl

-- What two readings of the clock are written as is ordered as they are, unless the earlier one is the later
-- one cut off. The same goes for the ends of leases.
theorem timestamps_ordered_iff (hc₁ : w₁.env.clock w₁.ticks = t₁) (hc₂ : w₂.env.clock w₂.ticks = t₂)
    (h₁ : t₁.Valid) (h₂ : t₂.Valid) (h : t₁.instant < t₂.instant) :
    (∃ s₁ s₂, (now w₁).fst = .ok s₁ ∧ (now w₂).fst = .ok s₂ ∧ (s₁ < s₂ ↔ ¬CutOff t₁ t₂)) ∧
    ∀ e₁ e₂, t₁.addSeconds leaseGraceSeconds = some e₁ → t₂.addSeconds leaseGraceSeconds = some e₂ →
      ∃ s₁ s₂, (leaseExpires w₁).fst = .ok s₁ ∧ (leaseExpires w₂).fst = .ok s₂ ∧
        (s₁ < s₂ ↔ ¬CutOff t₁ t₂) := by
  subst hc₁ hc₂
  refine ⟨⟨_, _, now_eq, now_eq, format_lt_iff h₁ h₂ h⟩, fun e₁ e₂ he₁ he₂ => ?_⟩
  have ⟨hv₁, hi₁⟩ := addSeconds_spec h₁ he₁
  have ⟨hv₂, hi₂⟩ := addSeconds_spec h₂ he₂
  refine ⟨_, _, leaseExpires_eq he₁, leaseExpires_eq he₂, ?_⟩
  rw [format_lt_iff hv₁ hv₂ (by omega), cutOff_later hi₁ hi₂]

def readingAt (t : OffsetDateTime) : World where
  journal := ⟨Storage.Db.empty, []⟩
  env     := { clock _ := t, uuid _ := ⟨0, 0, 0⟩, fault _ := none }
  inbox   := []

def onTheSecond : OffsetDateTime :=
  ⟨2026, 8, 12, 22, 10, 0, 0⟩

def halfPast : OffsetDateTime :=
  ⟨2026, 8, 12, 22, 10, 0, 500000000⟩

theorem timestamps_ordered_next :
    (∃ s₁ s₂, (now <| readingAt halfPast).fst = .ok s₁ ∧
      (now <| readingAt ⟨2026, 8, 12, 22, 10, 1, 0⟩).fst = .ok s₂ ∧
      (s₁ < s₂ ↔ ¬CutOff halfPast ⟨2026, 8, 12, 22, 10, 1, 0⟩)) ∧
    ∀ e₁ e₂, halfPast.addSeconds leaseGraceSeconds = some e₁ →
      (⟨2026, 8, 12, 22, 10, 1, 0⟩ : OffsetDateTime).addSeconds leaseGraceSeconds = some e₂ →
      ∃ s₁ s₂, (leaseExpires <| readingAt halfPast).fst = .ok s₁ ∧
        (leaseExpires <| readingAt ⟨2026, 8, 12, 22, 10, 1, 0⟩).fst = .ok s₂ ∧
        (s₁ < s₂ ↔ ¬CutOff halfPast ⟨2026, 8, 12, 22, 10, 1, 0⟩) :=
  timestamps_ordered_iff rfl rfl ⟨by decide, by decide, by decide⟩ ⟨by decide, by decide, by decide⟩
    (by decide +kernel)

-- The text of a whole second comes after that of half a second later.
theorem timestamps_unordered : ¬∀ w₁ w₂ s₁ s₂, (w₁.env.clock w₁.ticks).Valid → (w₂.env.clock w₂.ticks).Valid →
    (w₁.env.clock w₁.ticks).instant < (w₂.env.clock w₂.ticks).instant →
    (now w₁).fst = .ok s₁ → (now w₂).fst = .ok s₂ → s₁ < s₂ := by
  intro h
  have hlt := h (readingAt onTheSecond) (readingAt halfPast) _ _ ⟨by decide, by decide, by decide⟩
    ⟨by decide, by decide, by decide⟩ (by decide +kernel) now_eq now_eq
  revert hlt
  decide +kernel

end Kernel

namespace Kernel

open Wire Storage

def characterNotFound (id : String) : KernelError :=
  .ofProduct "CHARACTER_NOT_FOUND" [("characterId", id)]

def rowToCharacter (c : CharacterRow) : CharacterDto where
  id            := c.id
  name          := c.name
  description   := c.description
  avatarAssetId := c.avatarAssetId
  tags          := c.tags
  createdAt     := c.createdAt
  updatedAt     := c.updatedAt

def characterResponse (id : String) (missing : KernelError) : KernelM CharacterDto := do
  match ← query "characters_get" (·.characters.get? id) with
  | some c => do
    let dto := rowToCharacter c
    validate checkCharacterDto dto
    return dto
  | none => Proc.fail missing

def charactersCreate (request : Payload RequestCreateCharacter) : KernelM CharacterDto := do
  let req ← decodeRequest checkRequestCreateCharacter request
  let id ← newId
  let createdAt ← now
  transaction "characters_create" (fun _ => .product) <|
    Tx.insertCharacter "characters_create: insert" {
      id            := id
      name          := req.name
      description   := req.description
      avatarAssetId := none
      tags          := req.tags.getD []
      createdAt     := createdAt
      updatedAt     := createdAt
    }
  characterResponse id <| .internal
    "characters_create: insert succeeded but select back found no row"

def charactersUpdate (request : Payload RequestUpdateCharacter) : KernelM CharacterDto := do
  let req ← decodeRequest checkRequestUpdateCharacter request
  let updatedAt ← now
  let changed ← transaction "characters_update" (fun _ => .product) <|
    Tx.updateCharacters (fun c => c.id = req.characterId) fun c => { c with
      name        := req.name.getD c.name
      description := req.description <|> c.description
      tags        := req.tags.getD c.tags
      updatedAt   := updatedAt
    }
  if changed = 0 then
    Proc.fail <| characterNotFound req.characterId
  else
    characterResponse req.characterId <| characterNotFound req.characterId

def charactersDelete (request : Payload RequestDeleteCharacter) : KernelM Unit := do
  let req ← decodeRequest checkRequestDeleteCharacter request
  let changed ← transaction "characters_delete"
      (fun changed => if changed = 0 then .idle else .drop req.characterId) <|
    Tx.deleteCharacter "characters_delete: delete" req.characterId
  if changed = 0 then
    Proc.fail <| characterNotFound req.characterId

end Kernel
