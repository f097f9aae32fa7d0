import NeoTavern.Lib.Proc
import NeoTavern.Lib.Grouping
import NeoTavern.Storage.Product

namespace Storage.Product.Legacy

-- What stands in a column. A text that is not UTF-8 cannot be read.
inductive Value
  | null
  | integer (i : Int)
  | real (bits : BitVec 64)
  | text (t : String)
  | blob (bytes : List (BitVec 8))
  | malformed (bytes : List (BitVec 8))

abbrev Row := String → Value

structure LegacyTable where
  columns : List String
  rows    : List Row

structure LegacyDb where
  tables : String → Option LegacyTable

def LegacyDb.tableExists (db : LegacyDb) (name : String) : Bool :=
  (db.tables name).isSome

def LegacyDb.table (db : LegacyDb) (name : String) : LegacyTable :=
  (db.tables name).getD ⟨[], []⟩

-- The lexicographic order of rows by the columns `keys`.
def orderedBy (le : String → Value → Value → Bool) : List String → Row → Row → Bool
  | [],        _, _ => true
  | k :: keys, a, b => le k (a k) (b k) && (!le k (b k) (a k) || orderedBy le keys a b)

-- What the libraries do. The order of texts is up to the collation of their column, that of rows
-- with equal keys is open, as is the order in which a `HashMap` is gone through.
structure Platform where
  strings : String → Option (List String)
  value   : String → Option Json
  rfc3339 : Int → Option String
  le      : (table column : String) → Value → Value → Bool
  orderBy : (table : String) → (keys : List String) → List Row → List Row
  iterate : List (String × List ExportLoreEntry) → List (String × List ExportLoreEntry)
  le_refl        : ∀ table column v, le table column v v
  le_integer     : ∀ table column i j, le table column (.integer i) (.integer j) = decide (i ≤ j)
  orderBy_perm   : ∀ table keys rows, (orderBy table keys rows).Perm rows
  orderBy_sorted : ∀ table keys rows,
    (orderBy table keys rows).Pairwise fun a b => orderedBy (le table) keys a b
  iterate_perm   : ∀ m, (iterate m).Perm m

structure ConversionReport where
  characters : Nat
  chats      : Nat
  messages   : Nat
  lorebooks  : Nat
  presets    : Nat
  skipped    : Nat
  orphans    : List String

def ConversionReport.empty : ConversionReport :=
  ⟨0, 0, 0, 0, 0, 0, []⟩

def skip (report : ConversionReport) (why : String) : ConversionReport :=
  { report with skipped := report.skipped + 1, orphans := report.orphans ++ [why] }

def incompatible (why : String) : StorageError where
  code    := .unsupportedStorageFormat
  message := s!"not a supported legacy data root: {why}"

def requireColumns (cols : List String) (table : String) (required : List String) :
    Except StorageError Unit :=
  match required.find? (!cols.contains ·) with
  | none      => pure ()
  | some name => throw <| incompatible s!"{table} table is missing required column {name}"

def selectColumns (cols wanted : List String) : List String :=
  wanted.filter cols.contains

-- The selected columns of a row by their names.
abbrev Cells := String → Option Value

def cells (selected : List String) (row : Row) : Cells := fun name =>
  if selected.contains name then some (row name) else none

def Value.isMalformed : Value → Bool
  | .malformed _ => true
  | _            => false

def readValues (selected : List String) (row : Row) : Except StorageError Cells :=
  if selected.any fun name => (row name).isMalformed then
    throw <| .fromSqlite .other "legacy: read column value"
  else
    pure <| cells selected row

def asText : Option Value → Option String
  | some (.text t) => some t
  | _              => none

def asI64 : Option Value → Option Int
  | some (.integer i) => some i
  | _                 => none

section Rows

variable (selected : List String) (read : Cells → Except String α)
  (count : ConversionReport → ConversionReport) (keep : σ → α → Except StorageError σ)

-- The loop over the rows of a query. A row that cannot be made a record is skipped, and `keep`
-- takes what the others give.
def eachRow : List Row → ConversionReport × σ → Except StorageError (ConversionReport × σ)
  | [],          s           => pure s
  | row :: rows, (report, s) => do
    let get ← readValues selected row
    match read get with
    | .error why => eachRow rows (skip report why, s)
    | .ok a      => do
      let s' ← keep s a
      eachRow rows (count report, s')

end Rows

-- The error of a failing `INSERT` names the statement.
def execute (sec : Section ρ) (t : Tables) (row : ρ) : Except StorageError Tables :=
  match sec.insert row t with
  | .ok t'   => pure t'
  | .error f => throw <| .fromSqlite f s!"legacy: insert {sec.record}"

-- Also notes the id of the row.
def executeNoting (sec : Section ρ) (s : Tables × List String) (row : ρ) :
    Except StorageError (Tables × List String) := do
  let t ← execute sec s.fst row
  pure (t, s.snd ++ [sec.key row])

namespace Platform

variable (p : Platform)

def parseJsonArray (v : Option Value) : List String :=
  ((asText v).bind p.strings).getD []

def parseJson (v : Option Value) : Json :=
  ((asText v).bind p.value).getD .emptyObject

def msToRfc3339Checked (v : Option Value) : Option String :=
  (asI64 v).bind p.rfc3339

def readCharacter (get : Cells) : Except String CharacterRow := do
  let some id := asText (get "id") | throw "character: missing id"
  let some name := asText (get "name") | throw s!"character {id}: missing name"
  let some createdAt := p.msToRfc3339Checked (get "created_at")
    | throw s!"character {id}: invalid created_at"
  let some updatedAt := p.msToRfc3339Checked (get "updated_at")
    | throw s!"character {id}: invalid updated_at"
  return {
    id, name, createdAt, updatedAt
    description   := asText (get "description")
    avatarAssetId := none
    tagsJson      := .of <| p.parseJsonArray (get "tags")
    extJson       := .of <| p.parseJson (get "ext")
  }

-- Converts the characters and gives the ids of those that were inserted, as `convertChats` does.
def convertCharacters (legacy : LegacyDb) (report : ConversionReport) (t : Tables) :
    Except StorageError (ConversionReport × Tables × List String) := do
  let table := legacy.table "characters"
  requireColumns table.columns "characters" ["id", "name", "created_at", "updated_at"]
  let selected := selectColumns table.columns
    ["id", "name", "description", "avatar", "tags", "ext", "created_at", "updated_at"]
  eachRow selected p.readCharacter (fun r => { r with characters := r.characters + 1 })
    (executeNoting characters) (p.orderBy "characters" ["id"] table.rows) (report, t, [])

def readChat (characterIds : List String) (get : Cells) : Except String ChatRow := do
  let some id := asText (get "id") | throw "chat: missing id"
  let some createdAt := p.msToRfc3339Checked (get "created_at")
    | throw s!"chat {id}: invalid created_at"
  let some updatedAt := p.msToRfc3339Checked (get "updated_at")
    | throw s!"chat {id}: invalid updated_at"
  let title := (asText (get "title")).getD "New chat"
  let some characterId := asText (get "character_id")
    | throw s!"chat {id}: missing character reference"
  if !characterIds.contains characterId then
    throw s!"chat {id}: references missing character {characterId}"
  return { id, title, characterId, createdAt, updatedAt }

def convertChats (legacy : LegacyDb) (characterIds : List String) (report : ConversionReport)
    (t : Tables) : Except StorageError (ConversionReport × Tables × List String) := do
  let table := legacy.table "chats"
  requireColumns table.columns "chats" ["id", "created_at", "updated_at"]
  let selected := selectColumns table.columns
    ["id", "title", "character_id", "created_at", "updated_at"]
  eachRow selected (p.readChat characterIds) (fun r => { r with chats := r.chats + 1 })
    (executeNoting chats) (p.orderBy "chats" ["id"] table.rows) (report, t, [])

-- A message before it has its sequence, with the one of its column when there is such a column.
structure Draft where
  id        : String
  chatId    : String
  role      : String
  content   : String
  createdAt : String
  sequence  : Option Int

def Draft.numbered (d : Draft) (sequence : Int) : MessageRow where
  id              := d.id
  chatId          := d.chatId
  role            := d.role
  content         := d.content
  sequence        := sequence
  generationRunId := none
  createdAt       := d.createdAt

def readMessage (chatIds : List String) (hasSequence : Bool) (get : Cells) :
    Except String Draft := do
  let some id := asText (get "id") | throw "message: missing id"
  let some chatId := asText (get "chat_id") | throw s!"message {id}: missing chat reference"
  if !chatIds.contains chatId then
    throw s!"message {id}: references missing chat {chatId}"
  let some content := asText (get "content") | throw s!"message {id}: missing content"
  let some createdAt := p.msToRfc3339Checked (get "created_at")
    | throw s!"message {id}: invalid created_at"
  let role := ((asText (get "role")).filter kernelRoles.contains).getD "user"
  if hasSequence then
    let some seq := asI64 (get "sequence") | throw s!"message {id}: invalid sequence"
    return { id, chatId, role, content, createdAt, sequence := some seq }
  else
    return { id, chatId, role, content, createdAt, sequence := none }

-- The sequence of a message and the counters after it.
def Draft.take (d : Draft) (seqByChat : List (String × Int)) : Int × List (String × Int) :=
  match d.sequence with
  | some seq => (seq, seqByChat)
  | none     =>
    let seq := (Assoc.get seqByChat d.chatId).getD 0
    (seq, Assoc.set seqByChat d.chatId (seq + 1))

def executeNumbering (s : Tables × List (String × Int)) (d : Draft) :
    Except StorageError (Tables × List (String × Int)) := do
  let t ← execute messages s.fst <| d.numbered (d.take s.snd).fst
  pure (t, (d.take s.snd).snd)

def messageColumns (cols : List String) : List String :=
  selectColumns cols ["id", "chat_id", "role", "content", "sequence", "created_at"]

def messageOrder (cols : List String) : List String :=
  if cols.contains "sequence" then ["id"] else ["chat_id", "created_at", "id"]

def convertMessages (legacy : LegacyDb) (chatIds : List String) (report : ConversionReport)
    (t : Tables) : Except StorageError (ConversionReport × Tables × List (String × Int)) := do
  let table := legacy.table "messages"
  requireColumns table.columns "messages" ["id", "chat_id", "content", "created_at"]
  eachRow (messageColumns table.columns)
    (p.readMessage chatIds (table.columns.contains "sequence"))
    (fun r => { r with messages := r.messages + 1 }) executeNumbering
    (p.orderBy "messages" (messageOrder table.columns) table.rows) (report, t, [])

-- A lorebook without its entries.
structure Book where
  id          : String
  name        : String
  description : String
  createdAt   : String
  updatedAt   : String

def Book.filled (b : Book) (entries : List ExportLoreEntry) : LorebookRow where
  id          := b.id
  name        := b.name
  description := some b.description
  entriesJson := .of entries
  createdAt   := b.createdAt
  updatedAt   := b.updatedAt

def readBook (get : Cells) : Except String Book := do
  let some id := asText (get "id") | throw "lorebook: missing id"
  let some name := asText (get "name") | throw s!"lorebook {id}: missing name"
  let some createdAt := p.msToRfc3339Checked (get "created_at")
    | throw s!"lorebook {id}: invalid created_at"
  let some updatedAt := p.msToRfc3339Checked (get "updated_at")
    | throw s!"lorebook {id}: invalid updated_at"
  return { id, name, createdAt, updatedAt, description := (asText (get "description")).getD "" }

-- A lore entry with the lorebook it belongs to.
def readEntry (get : Cells) : Except String (String × ExportLoreEntry) := do
  let some id := asText (get "id") | throw "lore entry: missing id"
  let some bookId := asText (get "lorebook_id")
    | throw s!"lore entry {id}: missing lorebook reference"
  let some content := asText (get "content") | throw s!"lore entry {id}: missing content"
  let some createdAt := p.msToRfc3339Checked (get "created_at")
    | throw s!"lore entry {id}: invalid created_at"
  let some updatedAt := p.msToRfc3339Checked (get "updated_at")
    | throw s!"lore entry {id}: invalid updated_at"
  return (bookId, {
    id, content, createdAt, updatedAt
    keys          := p.parseJsonArray (get "keys_json")
    secondaryKeys := p.parseJsonArray (get "secondary_keys")
    enabled       := ((asI64 (get "enabled")).map (· != 0)).getD true
    position      := (asI64 (get "position")).getD 0
    constant      := ((asI64 (get "constant")).map (· != 0)).getD false
    selective     := ((asI64 (get "selective")).map (· != 0)).getD false
    metadata      := p.parseJson (get "metadata")
  })

def entryColumns (cols : List String) : List String :=
  selectColumns cols ["id", "lorebook_id", "keys_json", "secondary_keys", "content", "enabled",
    "position", "constant", "selective", "metadata", "created_at", "updated_at"]

def entryOrder (cols : List String) : List String :=
  if cols.contains "position" then ["lorebook_id", "position", "id"] else ["lorebook_id", "id"]

def readLoreEntries (legacy : LegacyDb) (report : ConversionReport) :
    Except StorageError (ConversionReport × List (String × List ExportLoreEntry)) := do
  let table := legacy.table "lore_entries"
  requireColumns table.columns "lore_entries"
    ["id", "lorebook_id", "content", "created_at", "updated_at"]
  eachRow (entryColumns table.columns) p.readEntry (fun r => r)
    (fun byBook e => pure (Assoc.push byBook e))
    (p.orderBy "lore_entries" (entryOrder table.columns) table.rows) (report, [])

def entriesByBook (legacy : LegacyDb) (report : ConversionReport) :
    Except StorageError (ConversionReport × List (String × List ExportLoreEntry)) :=
  if legacy.tableExists "lore_entries" then p.readLoreEntries legacy report else pure (report, [])

-- The entries of a lorebook that is not there are skipped together.
def skipEntries (bookIds : List String) (report : ConversionReport)
    (e : String × List ExportLoreEntry) : ConversionReport :=
  if bookIds.contains e.fst then
    report
  else
    { report with
      skipped := report.skipped + e.snd.length
      orphans := report.orphans ++ [s!"lore entries reference missing lorebook {e.fst}"] }

def insertBook (byBook : List (String × List ExportLoreEntry)) (s : ConversionReport × Tables)
    (b : Book) : Except StorageError (ConversionReport × Tables) := do
  let t ← execute lorebooks s.snd <| b.filled <| Assoc.group byBook b.id
  pure ({ s.fst with lorebooks := s.fst.lorebooks + 1 }, t)

def convertLorebooks (legacy : LegacyDb) (report : ConversionReport) (t : Tables) :
    Except StorageError (ConversionReport × Tables) := do
  let table := legacy.table "lorebooks"
  requireColumns table.columns "lorebooks" ["id", "name", "created_at", "updated_at"]
  let selected := selectColumns table.columns
    ["id", "name", "description", "created_at", "updated_at"]
  let (report, books) ← eachRow selected p.readBook (fun r => r)
    (fun books b => pure (books ++ [b])) (p.orderBy "lorebooks" ["id"] table.rows) (report, [])
  let (report, byBook) ← p.entriesByBook legacy report
  let report := (p.iterate byBook).foldl (skipEntries (books.map (·.id))) report
  books.foldlM (insertBook byBook) (report, t)

def readPreset (get : Cells) : Except String PresetRow := do
  let some id := asText (get "id") | throw "preset: missing id"
  let some name := asText (get "name") | throw s!"preset {id}: missing name"
  let some createdAt := p.msToRfc3339Checked (get "created_at")
    | throw s!"preset {id}: invalid created_at"
  let some updatedAt := p.msToRfc3339Checked (get "updated_at")
    | throw s!"preset {id}: invalid updated_at"
  return { id, name, createdAt, updatedAt, settingsJson := .of <| p.parseJson (get "data") }

def convertPresets (legacy : LegacyDb) (report : ConversionReport) (t : Tables) :
    Except StorageError (ConversionReport × Tables) := do
  let table := legacy.table "presets"
  requireColumns table.columns "presets" ["id", "name", "created_at", "updated_at"]
  let selected := selectColumns table.columns ["id", "name", "data", "created_at", "updated_at"]
  eachRow selected p.readPreset (fun r => { r with presets := r.presets + 1 }) (execute presets)
    (p.orderBy "presets" ["id"] table.rows) (report, t)

-- Characters come before chats and chats before messages, so that foreign keys resolve.
def convert (legacy : LegacyDb) (t : Tables) : Except StorageError (ConversionReport × Tables) := do
  let (report, t, characterIds) ← p.convertCharacters legacy .empty t
  let (report, t, chatIds) ← p.convertChats legacy characterIds report t
  let (report, t, _) ← p.convertMessages legacy chatIds report t
  let (report, t) ← p.convertLorebooks legacy report t
  p.convertPresets legacy report t

-- The tables that the rows go into are those of a fresh schema.
def convertLegacy (legacy : LegacyDb) : Except StorageError (ConversionReport × Tables) := do
  if !legacy.tableExists "characters" then
    throw <| incompatible "no characters table (not a legacy data root)"
  if legacy.tableExists "__neotavern_meta" then
    throw <| incompatible "source is a kernel data root, not a legacy root"
  match ["chats", "messages", "lorebooks", "presets"].find? (!legacy.tableExists ·) with
  | some name => throw <| incompatible s!"missing legacy table {name}"
  | none      => p.convert legacy .empty

end Platform
end Storage.Product.Legacy
