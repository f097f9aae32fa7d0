import NeoTavern.Lib.IndexedTable
import NeoTavern.Lib.Proc

namespace Messages

open Proc

inductive MessageRole
  | system
  | user
  | assistant
  | tool
  | plugin
  deriving DecidableEq

structure CharacterRow where
  id         : String
  lastUsedAt : Option Int
  deriving DecidableEq

structure ChatRow where
  id          : String
  characterId : Option String
  deriving DecidableEq

structure BranchRow where
  id     : String
  chatId : String
  deriving DecidableEq

-- `metaJson` is the text of the column `meta`.
structure MessageRow where
  id                    : String
  chatId                : String
  branchId              : String
  parentId              : Option String
  role                  : MessageRole
  content               : String
  name                  : Option String
  metaJson              : String
  createdAt             : Int
  revision              : Nat
  updatedAt             : Option Int
  idempotencyKey        : Option String
  variantCount          : Nat
  activeVariantPosition : Option Nat
  contentRevisionCount  : Nat
  checkpointChatId      : Option String
  deriving DecidableEq

-- `message_variants` and `message_content_revisions` have the same columns.
structure ArchivedRow where
  id        : String
  messageId : String
  position  : Nat
  content   : String
  createdAt : Int
  deriving DecidableEq

abbrev MessageVariantRow := ArchivedRow

abbrev MessageContentRevisionRow := ArchivedRow

abbrev ArchivedRow.index (r : ArchivedRow) : Option (String × Nat) :=
  some (r.messageId, r.position)

-- `UNIQUE (chat_id, idempotency_key) WHERE idempotency_key IS NOT NULL`.
abbrev MessageRow.index (m : MessageRow) : Option (String × String) :=
  m.idempotencyKey.map (m.chatId, ·)

abbrev ArchivedTable :=
  IndexedTable String (String × Nat) ArchivedRow (·.id) ArchivedRow.index

structure Db where
  characters              : Table String CharacterRow (·.id)
  chats                   : Table String ChatRow (·.id)
  chatBranches            : Table String BranchRow (·.id)
  messages                : IndexedTable String (String × String) MessageRow (·.id) MessageRow.index
  messageVariants         : ArchivedTable
  messageContentRevisions : ArchivedTable

inductive DbError
  | unique
  | foreignKey
  | idempotencyRace
  deriving DecidableEq

abbrev Tx := Proc Db DbError

namespace Tx

-- A transaction whose body throws is rolled back.
def transaction (p : Tx α) : Tx α := fun db =>
  match p db with
  | (.ok a, db')   => (.ok a, db')
  | (.error e, _) => (.error e, db)

-- An insert gives the table with the new row. SQLite looks at the unique indices of a row before its
-- foreign keys.
def insertRow (table : Db → Option τ) (references : Db → Bool) (put : τ → Db → Db) :
    Tx Unit := fun db =>
  match table db with
  | none   => (.error .unique, db)
  | some t => if references db then (.ok (), put t db) else (.error .foreignKey, db)

def insertMessage (m : MessageRow) : Tx Unit :=
  insertRow (·.messages.insert? m)
    (fun db => (db.chats.get? m.chatId).isSome && (db.chatBranches.get? m.branchId).isSome)
    fun messages db => { db with messages }

def insertVariant (v : MessageVariantRow) : Tx Unit :=
  insertRow (·.messageVariants.insert? v) (fun db => (db.messages.get? v.messageId).isSome)
    fun messageVariants db => { db with messageVariants }

def insertContentRevision (r : MessageContentRevisionRow) : Tx Unit :=
  insertRow (·.messageContentRevisions.insert? r) (fun db => (db.messages.get? r.messageId).isSome)
    fun messageContentRevisions db => { db with messageContentRevisions }

-- `SELECT … WHERE id = ? [AND revision = ?]`.
def selectMessage (id : String) (revision : Option Nat) : Tx (Option MessageRow) :=
  Proc.gets fun db => (db.messages.get? id).filter fun m => revision.all (m.revision = ·)

-- `UPDATE messages SET … WHERE id = ? [AND revision = ?] RETURNING *`.
def updateMessage (id : String) (revision : Option Nat) (set : MessageRow → MessageRow)
    (hs : ∀ m, (set m).id = m.id := by intro _; rfl)
    (hi : ∀ m, (set m).index = m.index := by intro _; rfl) : Tx (Option MessageRow) := do
  let current ← selectMessage id revision
  Proc.modify fun db => { db with
    messages := db.messages.update (fun m => m.id = id && revision.all (m.revision = ·)) set hs hi
  }
  return current.map set

def deleteVariant (id : String) : Tx Unit :=
  Proc.modify fun db => { db with messageVariants := db.messageVariants.delete (·.id = id) }

-- `UPDATE characters SET last_used_at = ? WHERE id = (SELECT character_id FROM chats WHERE id = ?)`.
def touchCharacter (chatId : String) (now : Int) : Tx Unit :=
  Proc.modify fun db => { db with
    characters := db.characters.update
      (fun c => (db.chats.get? chatId).any fun chat => chat.characterId = some c.id)
      fun c => { c with lastUsedAt := some now }
  }

end Tx

open Tx

structure Message where
  id                    : String
  chatId                : String
  branchId              : String
  parentId              : Option String
  role                  : MessageRole
  content               : String
  name                  : Option String
  metaJson              : String
  createdAt             : Int
  revision              : Nat
  updatedAt             : Option Int
  variantCount          : Nat
  activeVariantPosition : Option Nat
  checkpointChatId      : Option String
  contentRevisionCount  : Nat
  deriving DecidableEq

def rowToMessage (row : MessageRow) : Message where
  id                    := row.id
  chatId                := row.chatId
  branchId              := row.branchId
  parentId              := row.parentId
  role                  := row.role
  content               := row.content
  name                  := row.name
  metaJson              := row.metaJson
  createdAt             := row.createdAt
  revision              := row.revision
  updatedAt             := row.updatedAt
  variantCount          := row.variantCount
  activeVariantPosition := row.activeVariantPosition
  checkpointChatId      := row.checkpointChatId
  contentRevisionCount  := row.contentRevisionCount

-- `revisionMissing` is an answer of `restoreContentRevision` only.
inductive MessageUpdateResult
  | updated (message : Message)
  | conflict (currentRevision : Nat)
  | missing
  | revisionMissing
  deriving DecidableEq

structure MessageCreate where
  role           : MessageRole
  content        : String
  parentId       : Option String := none
  name           : Option String := none
  metaJson       : String        := "\x7b\x7d"
  idempotencyKey : Option String := none
  deriving DecidableEq

-- `checkpointChatId` may be absent, `null` or an id.
structure MessageUpdate where
  content          : Option String          := none
  role             : Option MessageRole     := none
  metaJson         : Option String          := none
  checkpointChatId : Option (Option String) := none
  deriving DecidableEq

def newMessage (now : Int) (id chatId branchId : String) (input : MessageCreate) : MessageRow where
  id                    := id
  chatId                := chatId
  branchId              := branchId
  parentId              := input.parentId
  role                  := input.role
  content               := input.content
  name                  := input.name
  metaJson              := input.metaJson
  createdAt             := now
  revision              := 1
  updatedAt             := none
  idempotencyKey        := input.idempotencyKey
  variantCount          := 1
  activeVariantPosition := some 0
  contentRevisionCount  := 0
  checkpointChatId      := none

-- The row of the message with the idempotency key of a create that was sent before.
def replayed (chatId : String) (idempotencyKey : Option String) : Tx MessageRow := do
  let created ← Proc.gets fun (db : Db) =>
    idempotencyKey.bind fun key => db.messages.lookup? (chatId, key)
  match created with
  | none     => Proc.fail .idempotencyRace
  | some row => return row

-- The insert of a create. An empty idempotency key counts as none.
def insertOrReplay (row : MessageRow) : Tx MessageRow := do
  match ← attempt (insertMessage row) with
  | .ok _    => return row
  | .error e =>
    if row.idempotencyKey.any (· ≠ "") ∧ e = .unique then
      replayed row.chatId row.idempotencyKey
    else
      Proc.fail e

-- The ids that `uuidv7` draws and the readings of the clock are arguments, here and below.
def create (now : Int) (id chatId branchId : String) (input : MessageCreate) : Tx Message :=
  transaction do
    let row ← insertOrReplay (newMessage now id chatId branchId input)
    touchCharacter chatId now
    return rowToMessage row

def getById (db : Db) (id : String) : Option Message :=
  (db.messages.get? id).map rowToMessage

-- `ORDER BY created_at DESC, id DESC LIMIT count`, oldest first.
def recentAscending (db : Db) (chatId branchId : String) (count : Nat) : List Message :=
  db.messages.rows.filter (fun m => m.chatId = chatId && m.branchId = branchId)
    |>.mergeSort (fun m n => n.createdAt < m.createdAt || n.createdAt = m.createdAt && n.id ≤ m.id)
    |>.take count |>.reverse |>.map rowToMessage

-- Why a guarded write found no row.
def missed (id : String) (expectedRevision : Option Nat) : Tx MessageUpdateResult := do
  match ← selectMessage id none, expectedRevision with
  | some existing, some _ => return .conflict existing.revision
  | _, _                  => return .missing

def answer (current : MessageRow) : Option MessageRow → MessageUpdateResult
  | some row => .updated <| rowToMessage row
  | none     => .conflict current.revision

-- The content of a message as the row of its next content revision.
def MessageRow.archived (current : MessageRow) (revisionId : String) :
    MessageContentRevisionRow where
  id        := revisionId
  messageId := current.id
  position  := current.contentRevisionCount
  content   := current.content
  createdAt := current.updatedAt.getD current.createdAt

def update (now : Int) (revisionId id : String) (patch : MessageUpdate)
    (expectedRevision : Option Nat) (trackContentRevision : Bool := true) :
    Tx MessageUpdateResult :=
  transaction do
    match ← selectMessage id expectedRevision with
    | none         => missed id expectedRevision
    | some current =>
      let tracked := patch.content.any (· ≠ current.content) && trackContentRevision
      if tracked then insertContentRevision (current.archived revisionId)
      let row ← updateMessage id (some current.revision) fun m => { m with
        content              := patch.content.getD m.content
        role                 := patch.role.getD m.role
        metaJson             := patch.metaJson.getD m.metaJson
        checkpointChatId     := patch.checkpointChatId.getD m.checkpointChatId
        contentRevisionCount :=
          if tracked then current.contentRevisionCount + 1 else m.contentRevisionCount
        revision             := current.revision + 1
        updatedAt            := some now
      }
      return answer current row

def restoreContentRevision (now : Int) (newRevisionId messageId revisionId : String)
    (expectedRevision : Nat) : Tx MessageUpdateResult :=
  transaction do
    match ← selectMessage messageId (some expectedRevision) with
    | none         => missed messageId (some expectedRevision)
    | some current =>
      let selected ← Proc.gets fun (db : Db) =>
        (db.messageContentRevisions.get? revisionId).filter (·.messageId = messageId)
      match selected with
      | none          => return .revisionMissing
      | some selected =>
        if selected.content = current.content then
          return .updated (rowToMessage current)
        else
          insertContentRevision (current.archived newRevisionId)
          let updated ← updateMessage messageId (some current.revision) fun m => { m with
            content              := selected.content
            contentRevisionCount := current.contentRevisionCount + 1
            revision             := current.revision + 1
            updatedAt            := some now
          }
          return answer current updated

-- A text of a message as the row of the variant at its active position.
def MessageRow.variant (message : MessageRow) (now : Int) (variantId content : String) :
    MessageVariantRow where
  id        := variantId
  messageId := message.id
  position  := message.activeVariantPosition.getD 0
  content   := content
  createdAt := now

def found : Option MessageRow → MessageUpdateResult
  | some row => .updated <| rowToMessage row
  | none     => .missing

def setActiveVariant (now : Int) (variantId messageId : String) (position : Nat)
    (expectedRevision : Option Nat) : Tx MessageUpdateResult :=
  transaction do
    match ← selectMessage messageId expectedRevision with
    | none         => missed messageId expectedRevision
    | some message =>
      match ← Proc.gets fun (db : Db) => db.messageVariants.lookup? (messageId, position) with
      | none         => return .missing
      | some variant =>
        insertVariant (message.variant now variantId message.content)
        let updated ← updateMessage messageId none fun m => { m with
          content               := variant.content
          activeVariantPosition := some position
          revision              := message.revision + 1
          updatedAt             := some now
        }
        deleteVariant variant.id
        return found updated

def replaceContentAsVariant (now : Int) (variantId messageId : String)
    (archiveContent content metaJson : String) : Tx MessageUpdateResult :=
  transaction do
    match ← selectMessage messageId none with
    | none         => return .missing
    | some message =>
      insertVariant (message.variant now variantId archiveContent)
      let updated ← updateMessage messageId none fun m => { m with
        content               := content
        metaJson              := metaJson
        variantCount          := message.variantCount + 1
        activeVariantPosition := some message.variantCount
        revision              := message.revision + 1
        updatedAt             := some now
      }
      return found updated

end Messages

namespace Messages

-- A request of the generate route between its reads of the target and its terminal write.
structure Generation where
  generationId        : String
  chatId              : String
  branch              : String
  regenerateMessageId : Option String
  regeneratedContent  : Option String := none
  streaming           : Bool          := false
  deriving DecidableEq

structure World where
  db          : Db
  generations : Table String Generation (·.generationId)

-- One access to the database by the repository or by the generate route. Arguments that the code
-- draws (ids, readings of the clock) come first.
inductive Event
  | create (now : Int) (id : String) (chatId branchId : String) (input : MessageCreate)
  | update (now : Int) (revisionId : String) (id : String) (patch : MessageUpdate)
      (expectedRevision : Option Nat)
  | restoreContentRevision (now : Int) (newRevisionId : String) (messageId revisionId : String)
      (expectedRevision : Nat)
  | setActiveVariant (now : Int) (variantId : String) (messageId : String) (position : Nat)
      (expectedRevision : Option Nat)
  | selectTarget (generationId : String) (chatId branch : String) (regenerate : Bool)
      (regenerateMessageId : Option String)
  | captureContent (generationId : String)
  | done (now : Int) (rowId : String) (generationId : String) (finalText metaJson : String)
  | abort (generationId : String)

inductive GenerateError
  | chatNotFound
  | regenerateTargetMoved
  deriving DecidableEq

-- The message that a regeneration rewrites. An empty id counts as none.
def regenerateTarget (db : Db) (chatId branch : String) (regenerate : Bool)
    (regenerateMessageId : Option String) : Except GenerateError (Option String) :=
  let lastMessage := (recentAscending db chatId branch 1).getLast?
  match regenerateMessageId.filter (· ≠ "") with
  | some messageId =>
    if lastMessage.any fun m => m.id = messageId ∧ m.role = .assistant then
      .ok messageId
    else
      .error .regenerateTargetMoved
  | none =>
    if regenerate then
      .ok <| (lastMessage.filter (·.role = .assistant)).map (·.id)
    else
      .ok none

-- The characters that `trim` removes.
def isTrimmed (c : Char) : Bool :=
  (0x9 ≤ c.toNat && c.toNat ≤ 0xD) || (0x2000 ≤ c.toNat && c.toNat ≤ 0x200A) ||
    [0x20, 0xA0, 0x1680, 0x2028, 0x2029, 0x202F, 0x205F, 0x3000, 0xFEFF].contains c.toNat

def isBlank (text : String) : Bool :=
  text.toList.all isTrimmed

-- The terminal write of the route.
def persist (now : Int) (rowId : String) (g : Generation) (finalText metaJson : String) :
    Tx Unit := do
  match g.regenerateMessageId, g.regeneratedContent with
  | some messageId, some regeneratedContent =>
    let _ ← replaceContentAsVariant now rowId messageId regeneratedContent finalText metaJson
  | _, _ =>
    let _ ← create now rowId g.chatId g.branch
      { role := .assistant, content := finalText, metaJson := metaJson }

namespace World

def selectTarget (w : World) (generationId chatId branch : String) (regenerate : Bool)
    (regenerateMessageId : Option String) : World :=
  if (w.db.chats.get? chatId).isNone then
    w
  else
    match regenerateTarget w.db chatId branch regenerate regenerateMessageId with
    | .error _                 => w
    | .ok regenerateMessageId =>
      match w.generations.insert? { generationId, chatId, branch, regenerateMessageId } with
      | none             => w
      | some generations => { w with generations }

def captureContent (w : World) (generationId : String) : World := { w with
  generations := w.generations.update (fun g => g.generationId = generationId && !g.streaming)
    fun g => { g with
      regeneratedContent := g.regenerateMessageId.bind fun id => (getById w.db id).map (·.content)
      streaming          := true
    }
}

def endGeneration (w : World) (generationId : String) : World :=
  { w with generations := w.generations.delete (·.generationId = generationId) }

-- The request whose stream is open.
def streaming (w : World) (generationId : String) : Option Generation :=
  (w.generations.get? generationId).filter (·.streaming)

def done (w : World) (now : Int) (rowId generationId finalText metaJson : String) : World :=
  match w.streaming generationId with
  | none   => w
  | some g =>
    if isBlank finalText then
      w.endGeneration generationId
    else
      { w with db := (persist now rowId g finalText metaJson w.db).snd }.endGeneration generationId

def step (w : World) : Event → World
  | .create now id chatId branchId input =>
    { w with db := (create now id chatId branchId input w.db).snd }
  | .update now revisionId id patch expectedRevision =>
    { w with db := (update now revisionId id patch expectedRevision true w.db).snd }
  | .restoreContentRevision now newRevisionId messageId revisionId expectedRevision => { w with
      db := (restoreContentRevision now newRevisionId messageId revisionId expectedRevision w.db).snd }
  | .setActiveVariant now variantId messageId position expectedRevision =>
    { w with db := (setActiveVariant now variantId messageId position expectedRevision w.db).snd }
  | .selectTarget generationId chatId branch regenerate regenerateMessageId =>
    w.selectTarget generationId chatId branch regenerate regenerateMessageId
  | .captureContent generationId => w.captureContent generationId
  | .done now rowId generationId finalText metaJson =>
    w.done now rowId generationId finalText metaJson
  | .abort generationId => w.endGeneration generationId

def run (w : World) (es : List Event) : World :=
  es.foldl step w

-- A database without messages.
def start (characters : Table String CharacterRow (·.id)) (chats : Table String ChatRow (·.id))
    (chatBranches : Table String BranchRow (·.id)) : World where
  generations := .empty
  db := {
    characters, chats, chatBranches
    messages                := .empty
    messageVariants         := .empty
    messageContentRevisions := .empty
  }

end World
end Messages
