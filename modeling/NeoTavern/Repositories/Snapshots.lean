import Mathlib
import NeoTavern.Lib.Assoc
import NeoTavern.Lib.Paging
import NeoTavern.Lib.Proc
import NeoTavern.Messages.Repository
import NeoTavern.Repositories.Chats
import NeoTavern.Shared.Id

namespace Repositories.Snapshots

open Chats (Id Chat ChatRow Origin)
open Proc

structure BranchRow where
  id        : Id
  chatId    : String
  name      : String
  createdAt : Int
  deriving DecidableEq

-- `metaJson` is the text of the column `meta`.
structure MessageRow where
  id                    : Id
  chatId                : String
  branchId              : String
  parentId              : Option Id
  role                  : Messages.MessageRole
  content               : String
  name                  : Option String
  metaJson              : String
  createdAt             : Int
  revision              : Nat
  updatedAt             : Option Int
  idempotencyKey        : Option String
  variantCount          : Nat
  activeVariantPosition : Option Nat
  contentRevisionCount  : Nat
  checkpointChatId      : Option String
  deriving DecidableEq

-- `message_variants` and `message_content_revisions` have the same columns.
structure ArchivedRow where
  id        : Id
  messageId : Id
  position  : Nat
  content   : String
  createdAt : Int
  deriving DecidableEq

structure BlockRow where
  id                  : Id
  messageId           : Id
  pluginId            : String
  blockType           : String
  rendererId          : String
  descriptorJson      : String
  serializedStateJson : Option String
  createdAt           : Int
  updatedAt           : Int
  deriving DecidableEq

structure Db where
  chats                   : Table String ChatRow fun row => row.id
  chatBranches            : Table Id BranchRow BranchRow.id
  messages                : Table Id MessageRow MessageRow.id
  messageVariants         : Table Id ArchivedRow ArchivedRow.id
  messageContentRevisions : Table Id ArchivedRow ArchivedRow.id
  messageBlockAttachments : Table Id BlockRow BlockRow.id

-- Besides primary keys, every constraint of the tables is among the reasons for which a statement fails.
inductive SnapshotError
  | statement
  | error (text : String)
  | outOfFuel
  deriving DecidableEq

structure World where
  clock       : Int
  environment : Shared.Environment
  faults      : Nat → Bool

structure Session where
  db         : Db
  ids        : Shared.UuidV7
  statements : Nat

abbrev Tx := Proc Session SnapshotError

section Statements

variable (w : World)

def select (f : Db → α) : Tx α := fun s =>
  let s' := { s with statements := s.statements + 1 }
  if w.faults s.statements then (.error .statement, s') else (.ok <| f s.db, s')

def execute (f : Db → Option Db) : Tx Unit := fun s =>
  let s' := { s with statements := s.statements + 1 }
  match w.faults s.statements, f s.db with
  | false, some db => (.ok (), { s' with db })
  | _,     _       => (.error .statement, s')

def uuidv7 : Tx Id := fun s =>
  let ids := s.ids.step w.environment
  (.ok ⟨ids.text, ids.text_ne_empty⟩, { s with ids })

-- Begins, runs `f`, and commits or rolls back.
def transaction (f : Tx α) : Tx α := fun s =>
  let begun := { s with statements := s.statements + 1 }
  if w.faults s.statements then
    (.error .statement, begun)
  else
    match f begun with
    | (.error e, s') => (.error e, { s' with db := s.db })
    | (.ok a, s')    => if w.faults s'.statements then (.error .statement, { s' with db := s.db }) else (.ok a, s')

end Statements

def snapshotBatchSize : Nat := 500

def MessageRow.place (row : MessageRow) : Int ×ₗ Id :=
  toLex (row.createdAt, row.id)

def selectBatch (chatId activeBranchId : String) (cursor : Option (Int × Id)) (db : Db) : List MessageRow :=
  let rows := db.messages.rows.filter fun row =>
    row.chatId = chatId && row.branchId = activeBranchId &&
      cursor.all fun (c, i) => c < row.createdAt || row.createdAt = c && i < row.id
  (Paging.orderBy MessageRow.place rows).take snapshotBatchSize

def MessageRow.copied (row : MessageRow) (id : Id) (chatId branchId : String) (parentId : Option Id) : MessageRow :=
  {
    row with
    id, chatId, branchId, parentId
    revision         := 1
    updatedAt        := none
    idempotencyKey   := none
    checkpointChatId := none
  }

-- The variables of the loop over the batches.
structure Copying where
  idMap   : List (Id × Id) := []
  copied  : Nat := 0
  reached : Bool := false
  oldIds  : List Id := []

section Copy

variable (w : World) (source : Id) (childChatId branchId : String)

-- The loop over one batch. No id is empty, so a row without a parent finds none in the map.
def copyMessages : List MessageRow → Copying → Tx Copying
  | [],          c => pure c
  | row :: rows, c =>
    if c.reached then
      pure c
    else do
      let newId ← uuidv7 w
      let idMap := Assoc.set c.idMap row.id newId
      let copy := row.copied newId childChatId branchId <| row.parentId.bind <| Assoc.get idMap
      execute w fun db => (db.messages.insert? copy).map fun messages => { db with messages }
      copyMessages rows {
        idMap
        copied  := c.copied + 1
        reached := row.id = source
        oldIds  := c.oldIds ++ [row.id]
      }

-- A table whose rows belong to messages.
structure Dependent (ρ : Type) where
  id                 : ρ → Id
  messageId          : ρ → Id
  table              : Db → Table Id ρ id
  put                : Table Id ρ id → Db → Db
  order              : List ρ → List ρ
  copied             : ρ → (id messageId : Id) → ρ
  order_perm l       : (order l).Perm l
  messageId_copied r : messageId (copied r i m) = m
  table_put t db     : table (put t db) = t
  put_table db       : put (table db) db = db
  put_put t t' db    : put t (put t' db) = put t db

def archivedOrder (row : ArchivedRow) : Nat ×ₗ Int :=
  toLex (row.position, row.createdAt)

def ArchivedRow.copied (row : ArchivedRow) (id messageId : Id) : ArchivedRow :=
  { row with id, messageId }

def BlockRow.copied (row : BlockRow) (id messageId : Id) : BlockRow :=
  { row with id, messageId }

def variants : Dependent ArchivedRow where
  id                 := ArchivedRow.id
  messageId          := ArchivedRow.messageId
  table              := Db.messageVariants
  put t db           := { db with messageVariants := t }
  order              := Paging.orderBy archivedOrder
  copied             := ArchivedRow.copied
  order_perm _       := Paging.orderBy_perm
  messageId_copied _ := rfl
  table_put _ _      := rfl
  put_table _        := rfl
  put_put _ _ _      := rfl

def contentRevisions : Dependent ArchivedRow where
  id                 := ArchivedRow.id
  messageId          := ArchivedRow.messageId
  table              := Db.messageContentRevisions
  put t db           := { db with messageContentRevisions := t }
  order              := Paging.orderBy archivedOrder
  copied             := ArchivedRow.copied
  order_perm _       := Paging.orderBy_perm
  messageId_copied _ := rfl
  table_put _ _      := rfl
  put_table _        := rfl
  put_put _ _ _      := rfl

def blocks : Dependent BlockRow where
  id                 := BlockRow.id
  messageId          := BlockRow.messageId
  table              := Db.messageBlockAttachments
  put t db           := { db with messageBlockAttachments := t }
  order rows         := rows
  copied             := BlockRow.copied
  order_perm _       := .refl _
  messageId_copied _ := rfl
  table_put _ _      := rfl
  put_table _        := rfl
  put_put _ _ _      := rfl

def Dependent.copyRow (d : Dependent ρ) (idMap : List (Id × Id)) (row : ρ) : Tx Unit :=
  match Assoc.get idMap <| d.messageId row with
  | none              => pure ()
  | some newMessageId => do
    let id ← uuidv7 w
    execute w fun db => ((d.table db).insert? <| d.copied row id newMessageId).map (d.put · db)

scoped instance : LawfulBEq Id := inferInstance

def Dependent.copyRows (d : Dependent ρ) (oldIds : List Id) (idMap : List (Id × Id)) : Tx Unit := do
  let rows ← select w fun db => d.order <| (d.table db).rows.filter (d.messageId · ∈ oldIds)
  rows.forM <| d.copyRow w idMap

-- One batch of the loop.
def copyBatch (batch : List MessageRow) (c : Copying) : Tx Copying := do
  let c ← copyMessages w source childChatId branchId batch { c with oldIds := [] }
  variants.copyRows w c.oldIds c.idMap
  contentRevisions.copyRows w c.oldIds c.idMap
  blocks.copyRows w c.oldIds c.idMap
  pure c

def copyBatches (chatId activeBranchId : String) : Nat → Option (Int × Id) → Copying → Tx Copying
  | 0,        _,      _ => fail .outOfFuel
  | fuel + 1, cursor, c =>
    if c.reached then
      pure c
    else do
      let batch ← select w <| selectBatch chatId activeBranchId cursor
      match batch.getLast? with
      | none      => pure c
      | some last => do
        let c ← copyBatch w source childChatId branchId batch c
        if batch.length < snapshotBatchSize then
          pure c
        else
          copyBatches chatId activeBranchId fuel (some (last.createdAt, last.id)) c

end Copy

structure SnapshotInput where
  parentChatId    : String
  sourceMessageId : Id
  kind            : Origin
  title           : Option String := none

structure SnapshotResult where
  chat           : Chat
  copiedMessages : Nat
  deriving DecidableEq

def kindText : Origin → String
  | .checkpoint => "checkpoint"
  | .branch     => "branch"

section Create

variable (w : World) (input : SnapshotInput)

def childRow (parent : ChatRow) (childChatId branchId : Id) : ChatRow where
  id              := childChatId
  characterId     := parent.characterId
  personaId       := parent.personaId
  title           := input.title.getD <| parent.title ++ " — " ++ kindText input.kind
  activeBranchId  := some branchId
  backgroundId    := parent.backgroundId
  summary         := parent.summary
  messageCount    := 0
  createdAt       := w.clock
  updatedAt       := w.clock
  deletedAt       := none
  parentChatId    := some parent.id
  origin          := some input.kind
  sourceMessageId := some input.sourceMessageId.val

def ChatRow.counted (row : ChatRow) (copied : Nat) : ChatRow :=
  { row with messageCount := copied }

theorem ChatRow.counted_id (row : ChatRow) (copied : Nat) : (ChatRow.counted row copied).id = row.id :=
  rfl

-- The body of the transaction after its checks. The loop reads no more batches than there are messages.
def copyBranch (parent : ChatRow) (activeBranchId : String) : Tx (Option SnapshotResult) := do
  let childChatId ← uuidv7 w
  let branchId ← uuidv7 w
  let child := childRow w input parent childChatId branchId
  execute w fun db => (db.chats.insert? child).map fun chats => { db with chats }
  let branch := { id := branchId, chatId := childChatId.val, name := "main", createdAt := w.clock : BranchRow }
  execute w fun db => (db.chatBranches.insert? branch).map fun chatBranches => { db with chatBranches }
  let fuel ← gets fun s => s.db.messages.rows.length + 1
  let c ← copyBatches w input.sourceMessageId childChatId branchId parent.id activeBranchId fuel none {}
  if !c.reached then
    fail <| .error "SNAPSHOT_TARGET_UNREACHABLE"
  else do
    execute w fun db =>
      let chats := db.chats.update (·.id = childChatId.val) (ChatRow.counted · c.copied)
        (ChatRow.counted_id · c.copied)
      some { db with chats }
    match ← select w (·.chats.get? childChatId.val) with
    | none       => fail <| .error "SNAPSHOT_CHILD_MISSING"
    | some child => pure <| some { chat := child.toChat, copiedMessages := c.copied }

def createSnapshot : Tx (Option SnapshotResult) := transaction w do
  match ← select w (·.chats.get? input.parentChatId) with
  | none        => pure none
  | some parent =>
    match ← select w (·.messages.get? input.sourceMessageId) with
    | none         => pure none
    | some message =>
      if message.chatId ≠ parent.id then
        pure none
      else
        match parent.activeBranchId with
        | none                => pure none
        | some activeBranchId =>
          if message.branchId ≠ activeBranchId then pure none else copyBranch w input parent activeBranchId

end Create

end Repositories.Snapshots
