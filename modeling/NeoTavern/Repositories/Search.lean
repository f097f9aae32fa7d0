import Mathlib
import NeoTavern.Lib.CodeUnits
import NeoTavern.Lib.Lists
import NeoTavern.Lib.Table
import NeoTavern.Messages.Repository

namespace Repositories.Search

open Messages (MessageRole)

inductive SearchScope
  | characters
  | chats
  | messages
  | lorebooks
  deriving DecidableEq

inductive SearchSort
  | relevance
  | date
  | name
  deriving DecidableEq

structure SearchResult where
  scope     : SearchScope
  id        : String
  title     : CodeUnits
  snippet   : CodeUnits
  score     : Rat
  timestamp : Int
  deriving DecidableEq

structure SearchResponse where
  query   : CodeUnits
  results : List SearchResult
  deriving DecidableEq

structure SearchOptions where
  tag  : Option CodeUnits := none
  sort : Option SearchSort := none

structure CharacterRow where
  id          : String
  name        : CodeUnits
  description : CodeUnits
  personality : CodeUnits
  updatedAt   : Int
  deletedAt   : Option Int

structure TagRow where
  id   : String
  name : CodeUnits

structure CharacterTagRow where
  characterId : String
  tagId       : String

structure ChatRow where
  id        : String
  title     : CodeUnits
  summary   : CodeUnits
  updatedAt : Int
  deletedAt : Option Int

structure MessageRow where
  id        : String
  chatId    : String
  role      : MessageRole
  content   : CodeUnits
  createdAt : Int

structure LorebookRow where
  id          : String
  name        : CodeUnits
  description : CodeUnits
  updatedAt   : Int
  deletedAt   : Option Int

structure LoreEntryRow where
  id         : String
  lorebookId : String
  content    : CodeUnits
  updatedAt  : Int

structure FtsHit where
  id   : String
  rank : Rat

-- A full text index: the entries that an expression matches, by rank.
structure FtsIndex where
  hits   : CodeUnits → List FtsHit
  ranked : ∀ query, (hits query).Pairwise (·.rank ≤ ·.rank)

structure Db where
  characters     : Table String CharacterRow CharacterRow.id
  tags           : Table String TagRow TagRow.id
  characterTags  : List CharacterTagRow
  chats          : Table String ChatRow ChatRow.id
  messages       : Table String MessageRow MessageRow.id
  lorebooks      : Table String LorebookRow LorebookRow.id
  loreEntries    : Table String LoreEntryRow LoreEntryRow.id
  charactersFts  : FtsIndex
  chatsFts       : FtsIndex
  messagesFts    : FtsIndex
  lorebooksFts   : FtsIndex
  loreEntriesFts : FtsIndex

def buildFtsQuery (q : CodeUnits) : CodeUnits :=
  let quote := CodeUnits.ofString "\""
  let words := q.splitSpace.map fun t => CodeUnits.trim <| t.filter fun u => u ≠ 0x22 ∧ u ≠ 0x27
  let tokens := words.filter (· ≠ [])
  [0x20].intercalate <| (tokens.take 10).map fun t => quote ++ t ++ quote ++ CodeUnits.ofString "*"

def snippet (text : CodeUnits) (max : Nat) : CodeUnits :=
  let clean := (CodeUnits.squeeze false text).trim
  if max < clean.length then clean.take (max - 1) ++ CodeUnits.ofString "…" else clean

def roleName : MessageRole → CodeUnits
  | .system    => .ofString "system"
  | .user      => .ofString "user"
  | .assistant => .ofString "assistant"
  | .tool      => .ofString "tool"
  | .plugin    => .ofString "plugin"

-- The `LIMIT` of each statement.
def FtsIndex.select (index : FtsIndex) (query : CodeUnits) (limit : Nat) : List FtsHit :=
  (index.hits query).take limit

-- What each search ends with: the rows that the statement has found, in the order of their hits.
def inHitOrder (hits : List FtsHit) (rows : List ρ) (key : ρ → String) (result : FtsHit → ρ → SearchResult) :
    List SearchResult :=
  hits.filterMap fun h => (rows.find? (key · = h.id)).map (result h)

namespace CharacterRow

def carries (db : Db) (name : CodeUnits) (c : CharacterRow) : Bool :=
  db.characterTags.any fun link =>
    link.characterId = c.id && db.tags.rows.any fun tag => link.tagId = tag.id && tag.name = name

-- The conditions on the row, apart from the one that it has been hit. An empty tag is none.
def shown (db : Db) (tag : Option CodeUnits) (c : CharacterRow) : Bool :=
  c.deletedAt.isNone && (tag.filter (· ≠ [])).all fun name => c.carries db name

def result (h : FtsHit) (c : CharacterRow) : SearchResult where
  scope     := .characters
  id        := c.id
  title     := c.name
  snippet   := Search.snippet (if c.description = [] then c.personality else c.description) 160
  score     := -h.rank
  timestamp := c.updatedAt

end CharacterRow

def searchCharacters (db : Db) (ftsQuery : CodeUnits) (limit : Nat) (tag : Option CodeUnits) : List SearchResult :=
  let hits := db.charactersFts.select ftsQuery limit
  let ids := hits.map (·.id)
  inHitOrder hits (db.characters.rows.filter fun c => c.id ∈ ids && c.shown db tag) (·.id) CharacterRow.result

def ChatRow.result (h : FtsHit) (c : ChatRow) : SearchResult where
  scope     := .chats
  id        := c.id
  title     := c.title
  snippet   := Search.snippet c.summary 160
  score     := -h.rank
  timestamp := c.updatedAt

def searchChats (db : Db) (ftsQuery : CodeUnits) (limit : Nat) : List SearchResult :=
  let hits := db.chatsFts.select ftsQuery limit
  let ids := hits.map (·.id)
  inHitOrder hits (db.chats.rows.filter fun c => c.id ∈ ids && c.deletedAt.isNone) (·.id) ChatRow.result

namespace MessageRow

-- The inner join with `chats`.
def shown (db : Db) (m : MessageRow) : Bool :=
  (db.chats.get? m.chatId).any (·.deletedAt.isNone)

def result (h : FtsHit) (m : MessageRow) : SearchResult where
  scope     := .messages
  id        := m.id
  title     := roleName m.role
  snippet   := Search.snippet m.content 160
  score     := -h.rank
  timestamp := m.createdAt

end MessageRow

def searchMessages (db : Db) (ftsQuery : CodeUnits) (limit : Nat) : List SearchResult :=
  let hits := db.messagesFts.select ftsQuery limit
  let ids := hits.map (·.id)
  inHitOrder hits (db.messages.rows.filter fun m => m.id ∈ ids && m.shown db) (·.id) MessageRow.result

def LorebookRow.result (h : FtsHit) (b : LorebookRow) : SearchResult where
  scope     := .lorebooks
  id        := b.id
  title     := b.name
  snippet   := Search.snippet b.description 160
  score     := -h.rank
  timestamp := b.updatedAt

-- An entry beside the name of its book.
def entryResult (h : FtsHit) (e : LoreEntryRow × CodeUnits) : SearchResult where
  scope     := .lorebooks
  id        := e.fst.id
  title     := e.snd
  snippet   := Search.snippet e.fst.content 160
  score     := -h.rank
  timestamp := e.fst.updatedAt

def searchLorebooks (db : Db) (ftsQuery : CodeUnits) (limit : Nat) : List SearchResult :=
  let bookHits := db.lorebooksFts.select ftsQuery limit
  let bookIds := bookHits.map (·.id)
  let bookResults := inHitOrder bookHits
    (db.lorebooks.rows.filter fun b => b.id ∈ bookIds && b.deletedAt.isNone) (·.id) LorebookRow.result
  let entryHits := db.loreEntriesFts.select ftsQuery limit
  let ids := entryHits.map (·.id)
  let rows := (db.loreEntries.rows.filter (·.id ∈ ids)).filterMap fun e =>
    ((db.lorebooks.get? e.lorebookId).filter (·.deletedAt.isNone)).map fun b => (e, b.name)
  (bookResults ++ inHitOrder entryHits rows (·.fst.id) entryResult).take (limit * 2)

def searchIn (db : Db) (ftsQuery : CodeUnits) (limit : Nat) (tag : Option CodeUnits) :
    SearchScope → List SearchResult
  | .characters => searchCharacters db ftsQuery limit tag
  | .chats      => searchChats db ftsQuery limit
  | .messages   => searchMessages db ftsQuery limit
  | .lorebooks  => searchLorebooks db ftsQuery limit

-- `collate` is the order of `localeCompare`.
def SearchSort.sort (collate : CodeUnits → CodeUnits → Bool) :
    SearchSort → List SearchResult → List SearchResult
  | .date      => (List.mergeSort · fun a b => b.timestamp ≤ a.timestamp)
  | .name      => (List.mergeSort · fun a b => collate a.title b.title)
  | .relevance => (List.mergeSort · fun a b => b.score ≤ a.score)

def search (collate : CodeUnits → CodeUnits → Bool) (db : Db) (q : CodeUnits) (scope : Option SearchScope)
    (limit : Nat) (options : SearchOptions) : SearchResponse :=
  let ftsQuery := buildFtsQuery q
  if ftsQuery = [] then
    { query := q, results := [] }
  else
    let scopes := scope.elim [.characters, .chats, .messages, .lorebooks] ([·])
    let results := scopes.flatMap <| searchIn db ftsQuery limit options.tag
    { query := q, results := (options.sort.getD .relevance |>.sort collate results).take limit }

section Filling

variable {ρ : Type} {hits : List FtsHit} {live : FtsHit → Option ρ} {result : FtsHit → ρ → SearchResult}

-- The results of a search with all of its `hits`: `live` is the row of a hit that may be shown.
structure Filled (hits : List FtsHit) (live : FtsHit → Option ρ) (result : FtsHit → ρ → SearchResult)
    (limit : Nat) (results : List SearchResult) : Prop where
  length   : results.length = min limit (hits.countP fun h => (live h).isSome)
  results  : ∀ r ∈ results, ∃ h ∈ hits, ∃ row, live h = some row ∧ r = result h row

-- No hit is shown behind the first `limit` ones, or all of these are shown.
def FirstSuffice (hits : List FtsHit) (live : FtsHit → Option ρ) (limit : Nat) : Prop :=
  (∀ h ∈ hits.drop limit, live h = none) ∨ ∀ h ∈ hits.take limit, (live h).isSome

-- What a search returns: the rows to be shown of its first hits.
def shownOf (live : FtsHit → Option ρ) (result : FtsHit → ρ → SearchResult) (hits : List FtsHit) :
    List SearchResult :=
  hits.filterMap fun h => (live h).map (result h)

theorem inHitOrder_eq {t : Table String ρ key} {shown : ρ → Bool} :
    inHitOrder hits (t.rows.filter fun r => key r ∈ hits.map (·.id) && shown r) key result =
      shownOf (fun h => (t.get? h.id).filter shown) result hits := by
  apply List.filterMap_congr
  intro h hh
  rw [Table.find?_selected <| List.mem_map_of_mem hh]

theorem mem_shownOf (h : r ∈ shownOf live result hits) :
    ∃ h ∈ hits, ∃ row, live h = some row ∧ r = result h row := by
  have ⟨hit, hhit, hr⟩ := List.mem_filterMap.mp h
  have ⟨row, hrow, hr⟩ := Option.map_eq_some_iff.mp hr
  exact ⟨hit, hhit, row, hrow, hr.symm⟩

theorem length_shownOf : (shownOf live result hits).length = hits.countP fun h => (live h).isSome := by
  rw [shownOf, List.length_filterMap_eq_countP]
  simp

theorem filled_iff :
    Filled hits live result limit (shownOf live result (hits.take limit)) ↔ FirstSuffice hits live limit := by
  have hcount := Lists.countP_take_eq_min_iff (l := hits) (p := fun h => (live h).isSome) (n := limit)
  constructor
  case mp =>
    intro h
    have hlength := h.length
    rw [length_shownOf, hcount] at hlength
    cases hlength
    case inl hfirst => exact .inr hfirst
    case inr hrest  => exact .inl fun h hh => by simpa using hrest h hh
  case mpr =>
    intro h
    constructor
    case length =>
      rw [length_shownOf, hcount]
      cases h
      case inl hrest  => exact .inr fun h hh => by simp [hrest h hh]
      case inr hfirst => exact .inl hfirst
    case results =>
      intro r hr
      have ⟨h, hh, hrow⟩ := mem_shownOf hr
      exact ⟨h, List.mem_of_mem_take hh, hrow⟩

end Filling

section Searches

variable {db : Db} {query : CodeUnits} {limit : Nat} {tag : Option CodeUnits}

def Db.liveCharacter (db : Db) (tag : Option CodeUnits) (h : FtsHit) : Option CharacterRow :=
  (db.characters.get? h.id).filter (·.shown db tag)

def Db.liveChat (db : Db) (h : FtsHit) : Option ChatRow :=
  (db.chats.get? h.id).filter (·.deletedAt.isNone)

def Db.liveMessage (db : Db) (h : FtsHit) : Option MessageRow :=
  (db.messages.get? h.id).filter (·.shown db)

theorem searchCharacters_eq :
    searchCharacters db query limit tag =
      shownOf (db.liveCharacter tag) CharacterRow.result ((db.charactersFts.hits query).take limit) :=
  inHitOrder_eq

theorem searchMessages_eq :
    searchMessages db query limit =
      shownOf db.liveMessage MessageRow.result ((db.messagesFts.hits query).take limit) :=
  inHitOrder_eq

theorem searches_filled_iff (db : Db) (query : CodeUnits) (limit : Nat) (tag : Option CodeUnits) :
    (Filled (db.charactersFts.hits query) (db.liveCharacter tag) CharacterRow.result limit
        (searchCharacters db query limit tag) ↔
      FirstSuffice (db.charactersFts.hits query) (db.liveCharacter tag) limit) ∧
    (Filled (db.messagesFts.hits query) db.liveMessage MessageRow.result limit (searchMessages db query limit) ↔
      FirstSuffice (db.messagesFts.hits query) db.liveMessage limit) := by
  rw [searchCharacters_eq, searchMessages_eq]
  exact ⟨filled_iff, filled_iff⟩

def emptyIndex : FtsIndex where
  hits _   := []
  ranked _ := .nil

-- The better of two matches is in the trash.
def trashIndex : FtsIndex where
  hits query   := if query = CodeUnits.ofString "\"elf\"*" then [⟨"dead", -2⟩, ⟨"live", -1⟩] else []
  ranked query := by split <;> decide

def trashDb : Db where
  characters     := {
    rows  := [⟨"dead", .ofString "Elf", [], [], 1, some 3⟩, ⟨"live", .ofString "Wood elf", [], [], 2, none⟩]
    nodup := by decide
  }
  tags           := .empty
  characterTags  := []
  chats          := .empty
  messages       := .empty
  lorebooks      := .empty
  loreEntries    := .empty
  charactersFts  := trashIndex
  chatsFts       := emptyIndex
  messagesFts    := emptyIndex
  lorebooksFts   := emptyIndex
  loreEntriesFts := emptyIndex

theorem trashDb_not_filled :
    ¬Filled (trashDb.charactersFts.hits <| buildFtsQuery <| .ofString "elf") (trashDb.liveCharacter none)
      CharacterRow.result 1 (searchCharacters trashDb (buildFtsQuery <| .ofString "elf") 1 none) := by
  intro h
  exact absurd h.length (by decide +kernel)

end Searches

end Repositories.Search
