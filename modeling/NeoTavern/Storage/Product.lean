import NeoTavern.Lib.Merging
import NeoTavern.Storage.Database

namespace Storage.Product

-- A number is kept as it is written.
inductive Json
  | null
  | bool (b : Bool)
  | number (literal : String)
  | string (s : String)
  | array (items : List Json)
  | object (members : List (String × Json))

def Json.emptyObject : Json :=
  .object []

-- The portable records.
structure ExportCharacter where
  id            : String
  name          : String
  description   : Option String
  avatarAssetId : Option String
  tags          : List String
  ext           : Json
  createdAt     : String
  updatedAt     : String

abbrev ExportChat := ChatRow

structure ExportMessage where
  id        : String
  chatId    : String
  role      : String
  content   : String
  sequence  : Nat
  createdAt : String

structure ExportLoreEntry where
  id            : String
  keys          : List String
  secondaryKeys : List String
  content       : String
  enabled       : Bool
  position      : Int
  constant      : Bool
  selective     : Bool
  metadata      : Json
  createdAt     : String
  updatedAt     : String

structure ExportLorebook where
  id          : String
  name        : String
  description : Option String
  entries     : List ExportLoreEntry
  createdAt   : String
  updatedAt   : String

structure ExportPreset where
  id        : String
  name      : String
  settings  : Json
  createdAt : String
  updatedAt : String

inductive Kind
  | characters
  | chats
  | messages
  | lorebooks
  | presets
  deriving DecidableEq

-- The text of a JSON column: what serialising a value gives, or any other text.
inductive Column (α : Type)
  | of (value : α)
  | text (t : String)

structure CharacterRow where
  id            : String
  name          : String
  description   : Option String
  avatarAssetId : Option String
  tagsJson      : Column (List String)
  extJson       : Column Json
  createdAt     : String
  updatedAt     : String

structure MessageRow where
  id              : String
  chatId          : String
  role            : String
  content         : String
  sequence        : Int
  generationRunId : Option String
  createdAt       : String

structure LorebookRow where
  id          : String
  name        : String
  description : Option String
  entriesJson : Column (List ExportLoreEntry)
  createdAt   : String
  updatedAt   : String

structure PresetRow where
  id           : String
  name         : String
  settingsJson : Column Json
  createdAt    : String
  updatedAt    : String

@[ext]
structure Tables where
  characters : Table String CharacterRow (·.id)
  chats      : Table String ChatRow (·.id)
  messages   : Table String MessageRow (·.id)
  lorebooks  : Table String LorebookRow (·.id)
  presets    : Table String PresetRow (·.id)

def Tables.empty : Tables where
  characters := .empty
  chats      := .empty
  messages   := .empty
  lorebooks  := .empty
  presets    := .empty

-- The values that the `CHECK` of `messages.role` lets through.
def kernelRoles : List String :=
  ["system", "user", "assistant", "tool"]

-- One of the five sections of the product data, which is one of the tables.
structure Section (ρ : Type) where
  record : String
  key    : ρ → String
  table  : Tables → Table String ρ key
  put    : Tables → Table String ρ key → Tables
  -- What foreign keys and checks ask of a row.
  admits : Tables → ρ → Bool
  -- The row after an `UPDATE` that sets it to the first one. Columns that the statement does not
  -- name stay.
  revise     : ρ → ρ → ρ
  key_revise : ∀ new old, key (revise new old) = key old
  table_put  : ∀ t x, table (put t x) = x
  put_put    : ∀ t x y, put (put t x) y = put t y
  put_table  : ∀ t, put t (table t) = t
  admits_put : ∀ t x row, admits (put t x) row = admits t row

def characters : Section CharacterRow where
  record     := "character"
  key        := (·.id)
  table      := (·.characters)
  put t x    := { t with characters := x }
  admits _ _ := true
  revise new old := { new with id := old.id }
  key_revise _ _   := rfl
  table_put _ _    := rfl
  put_put _ _ _    := rfl
  put_table _      := rfl
  admits_put _ _ _ := rfl

def chats : Section ChatRow where
  record     := "chat"
  key        := (·.id)
  table      := (·.chats)
  put t x    := { t with chats := x }
  admits t c := (t.characters.get? c.characterId).isSome
  revise new old := { new with id := old.id }
  key_revise _ _   := rfl
  table_put _ _    := rfl
  put_put _ _ _    := rfl
  put_table _      := rfl
  admits_put _ _ _ := rfl

def messages : Section MessageRow where
  record     := "message"
  key        := (·.id)
  table      := (·.messages)
  put t x    := { t with messages := x }
  admits t m := (t.chats.get? m.chatId).isSome && kernelRoles.contains m.role
  revise new old := { new with id := old.id, generationRunId := old.generationRunId }
  key_revise _ _   := rfl
  table_put _ _    := rfl
  put_put _ _ _    := rfl
  put_table _      := rfl
  admits_put _ _ _ := rfl

def lorebooks : Section LorebookRow where
  record     := "lorebook"
  key        := (·.id)
  table      := (·.lorebooks)
  put t x    := { t with lorebooks := x }
  admits _ _ := true
  revise new old := { new with id := old.id }
  key_revise _ _   := rfl
  table_put _ _    := rfl
  put_put _ _ _    := rfl
  put_table _      := rfl
  admits_put _ _ _ := rfl

def presets : Section PresetRow where
  record     := "preset"
  key        := (·.id)
  table      := (·.presets)
  put t x    := { t with presets := x }
  admits _ _ := true
  revise new old := { new with id := old.id }
  key_revise _ _   := rfl
  table_put _ _    := rfl
  put_put _ _ _    := rfl
  put_table _      := rfl
  admits_put _ _ _ := rfl

namespace Section

variable (s : Section ρ)

-- `SELECT 1 FROM … WHERE id = ?1`.
def rowExists (id : String) (t : Tables) : Bool :=
  ((s.table t).get? id).isSome

-- `INSERT INTO … VALUES …`.
def insert (row : ρ) (t : Tables) : Except SqliteFailure Tables :=
  if s.admits t row then
    match (s.table t).insert? row with
    | some table => .ok (s.put t table)
    | none       => .error .constraint
  else
    .error .constraint

-- `UPDATE … SET … WHERE id = ?1`, with the values and the id of `row`.
def update (row : ρ) (t : Tables) : Except SqliteFailure Tables :=
  match (s.table t).get? (s.key row) with
  | none     => .ok t
  | some old =>
    if s.admits t (s.revise row old) then
      .ok <| s.put t <| (s.table t).update (s.key · = s.key row) (s.revise row) (s.key_revise row)
    else
      .error .constraint

variable {s} {t t' : Tables} {row : ρ}

theorem insert_eq_ok (h : s.insert row t = .ok t') :
    s.admits t row ∧ ∃ table, (s.table t).insert? row = some table ∧ t' = s.put t table := by
  rw [insert] at h
  split at h
  case isFalse => cases h
  case isTrue ha =>
    split at h
    case h_1 table hi => exact ⟨ha, table, hi, (Except.ok.inj h).symm⟩
    case h_2          => cases h

theorem update_eq_ok (h : s.update row t = .ok t') :
    t' = s.put t ((s.table t).update (s.key · = s.key row) (s.revise row) (s.key_revise row)) := by
  rw [update] at h
  split at h
  case h_1 hg =>
    have hc : (s.table t).count (s.key · = s.key row) = 0 := by
      rw [Table.count_eq_zero_iff]
      intro r hr
      simpa using Table.get?_eq_none_iff.mp hg r hr
    rw [Table.update_eq_self hc, s.put_table]
    exact (Except.ok.inj h).symm
  case h_2 old hg =>
    split at h
    case isTrue  => exact (Except.ok.inj h).symm
    case isFalse => cases h

-- `t'` has come from `t` by inserting the rows `added`.
structure Grown (s : Section ρ) (added : List ρ) (t t' : Tables) : Prop where
  tables   : t' = s.put t (s.table t')
  rows     : (s.table t').rows = (s.table t).rows ++ added
  admitted : ∀ row ∈ added, s.admits t row

theorem Grown.refl (s : Section ρ) (t : Tables) : s.Grown [] t t where
  tables   := (s.put_table t).symm
  rows     := (List.append_nil _).symm
  admitted := fun _ h => by cases h

theorem Grown.of_insert (h : s.insert row t = .ok t') : s.Grown [row] t t' := by
  obtain ⟨ha, table, hi, rfl⟩ := insert_eq_ok h
  constructor
  case tables   => rw [s.table_put]
  case rows     => rw [s.table_put, Table.insert?_rows hi]
  case admitted => simpa using ha

theorem Grown.trans (h₁ : s.Grown added₁ t t') (h₂ : s.Grown added₂ t' t'') :
    s.Grown (added₁ ++ added₂) t t'' := by
  constructor
  case tables   => rw [h₂.tables, s.table_put, h₁.tables, s.put_put]
  case rows     => rw [h₂.rows, h₁.rows, List.append_assoc]
  case admitted =>
    intro row hrow
    cases List.mem_append.mp hrow
    case inl h => exact h₁.admitted row h
    case inr h =>
      have ha := h₂.admitted row h
      rwa [h₁.tables, s.admits_put] at ha

theorem rowExists_key : s.rowExists (s.key row) t = (s.table t).present row :=
  rfl

end Section

namespace Tables

variable {t t₁ t₂ t₃ t₄ t₅ : Tables} {cs : List CharacterRow} {hs : List ChatRow}
  {ms : List MessageRow} {bs : List LorebookRow} {ps : List PresetRow}

-- Rows have been inserted into all tables.
structure Grown (t t' : Tables) (cs : List CharacterRow) (hs : List ChatRow) (ms : List MessageRow)
    (bs : List LorebookRow) (ps : List PresetRow) : Prop where
  characters : t'.characters.rows = t.characters.rows ++ cs
  chats      : t'.chats.rows = t.chats.rows ++ hs
  messages   : t'.messages.rows = t.messages.rows ++ ms
  lorebooks  : t'.lorebooks.rows = t.lorebooks.rows ++ bs
  presets    : t'.presets.rows = t.presets.rows ++ ps

-- No section touches the tables of the others.
theorem Grown.of_sections (h₁ : Product.characters.Grown cs t t₁) (h₂ : Product.chats.Grown hs t₁ t₂)
    (h₃ : Product.messages.Grown ms t₂ t₃) (h₄ : Product.lorebooks.Grown bs t₃ t₄)
    (h₅ : Product.presets.Grown ps t₄ t₅) : t.Grown t₅ cs hs ms bs ps := by
  have hrows₂ := h₂.rows
  have hrows₃ := h₃.rows
  have hrows₄ := h₄.rows
  have hrows₅ := h₅.rows
  rw [h₁.tables] at hrows₂
  rw [h₂.tables, h₁.tables] at hrows₃
  rw [h₃.tables, h₂.tables, h₁.tables] at hrows₄
  rw [h₄.tables, h₃.tables, h₂.tables, h₁.tables] at hrows₅
  constructor
  case characters =>
    rw [h₅.tables, h₄.tables, h₃.tables, h₂.tables]
    exact h₁.rows
  case chats =>
    rw [h₅.tables, h₄.tables, h₃.tables]
    exact hrows₂
  case messages =>
    rw [h₅.tables, h₄.tables]
    exact hrows₃
  case lorebooks =>
    rw [h₅.tables]
    exact hrows₄
  case presets => exact hrows₅

end Tables
end Storage.Product
