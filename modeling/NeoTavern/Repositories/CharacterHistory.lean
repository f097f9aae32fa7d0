import Mathlib
import NeoTavern.Lib.Assoc
import NeoTavern.Lib.CodeUnits
import NeoTavern.Lib.Lists
import NeoTavern.Lib.Runs

namespace Repositories.Characters

abbrev Text := CodeUnits

-- The tags by their ids, and those that one character has. `next` is an id that no tag has.
structure Tags where
  rows        : List (Nat × Text)
  links       : List Nat
  next        : Nat
  nodup_ids   : (rows.map (·.fst)).Nodup
  nodup_names : (rows.map (·.snd)).Nodup
  lt_next     : ∀ row ∈ rows, row.fst < next

namespace Tags

variable {tags : Tags} {name : Text} {names : List Text}

def empty : Tags where
  rows        := []
  links       := []
  next        := 0
  nodup_ids   := List.nodup_nil
  nodup_names := List.nodup_nil
  lt_next     := by simp

-- `INSERT … ON CONFLICT (name) DO NOTHING`
def insert (tags : Tags) (name : Text) : Tags :=
  if h : name ∈ tags.rows.map (·.snd) then
    tags
  else
    { tags with
      rows        := tags.rows ++ [(tags.next, name)]
      next        := tags.next + 1
      nodup_ids   := by
        have hnext : tags.next ∉ tags.rows.map (·.fst) := by
          intro hmem
          have ⟨row, hrow, heq⟩ := List.mem_map.mp hmem
          exact absurd (tags.lt_next row hrow) <| by simp [heq]
        simpa [List.nodup_append, tags.nodup_ids] using fun id n hmem heq =>
          hnext <| List.mem_map.mpr ⟨(id, n), hmem, heq⟩
      nodup_names := by
        simpa [List.nodup_append, tags.nodup_names] using fun n id hmem heq =>
          h <| List.mem_map.mpr ⟨(id, n), hmem, heq⟩
      lt_next     := by
        intro row hrow
        match List.mem_append.mp hrow with
        | .inl hold => exact Nat.lt_succ_of_lt <| tags.lt_next row hold
        | .inr hnew => simp [List.mem_singleton.mp hnew]
    }

def uniqueNames (tagNames : List Text) : List Text :=
  ((tagNames.map CodeUnits.trim).filter fun n => 0 < n.length).eraseDups

def replaceTags (tags : Tags) (tagNames : List Text) : Tags :=
  let unique := uniqueNames tagNames
  let ensured := unique.foldl insert tags
  let found := ensured.rows.filter (·.snd ∈ unique)
  { ensured with links := found.map (·.fst) }

def loadTags (tags : Tags) : List Text :=
  (tags.rows.filter (·.fst ∈ tags.links)).map (·.snd)

theorem mem_insert : name' ∈ (tags.insert name).rows.map (·.snd) ↔
    name' = name ∨ name' ∈ tags.rows.map (·.snd) := by
  rw [insert]
  split
  case isFalse  => simp [or_comm]
  case isTrue h =>
    constructor
    case mp  => exact .inr
    case mpr =>
      intro hmem
      cases hmem
      case inl heq => exact heq ▸ h
      case inr h'  => exact h'

theorem mem_foldl_insert : name ∈ (names.foldl insert tags).rows.map (·.snd) ↔
    name ∈ names ∨ name ∈ tags.rows.map (·.snd) := by
  induction names generalizing tags
  case nil            => simp
  case cons n names ih =>
    rw [List.foldl_cons, ih, mem_insert, List.mem_cons]
    tauto

theorem mem_uniqueNames : name ∈ uniqueNames names ↔ 0 < name.length ∧ ∃ n ∈ names, n.trim = name := by
  simp [uniqueNames, and_comm]

-- A character has exactly the tags that it has been given.
theorem mem_loadTags_replaceTags : name ∈ (tags.replaceTags names).loadTags ↔ name ∈ uniqueNames names := by
  let ensured := (uniqueNames names).foldl insert tags
  have hload : (tags.replaceTags names).loadTags =
      (ensured.rows.filter fun row => row.fst ∈ (ensured.rows.filter (·.snd ∈ uniqueNames names)).map (·.fst)).map
        (·.snd) := rfl
  rw [hload, List.mem_map]
  constructor
  case mp =>
    intro ⟨row, hrow, heq⟩
    have ⟨hmem, hlink⟩ := List.mem_filter.mp hrow
    have ⟨row', hrow', hid⟩ := List.mem_map.mp <| of_decide_eq_true hlink
    have ⟨hmem', hname⟩ := List.mem_filter.mp hrow'
    -- The ids are unique, so that it is the same tag.
    have hsame : row' = row := List.inj_on_of_nodup_map ensured.nodup_ids hmem' hmem hid
    rw [← heq, ← hsame]
    exact of_decide_eq_true hname
  case mpr =>
    intro hname
    have hensured : name ∈ ensured.rows.map (·.snd) := mem_foldl_insert.mpr <| .inl hname
    have ⟨row, hrow, heq⟩ := List.mem_map.mp hensured
    have hfound : row ∈ ensured.rows.filter (·.snd ∈ uniqueNames names) :=
      List.mem_filter.mpr ⟨hrow, decide_eq_true <| heq ▸ hname⟩
    exact ⟨row, List.mem_filter.mpr ⟨hrow, decide_eq_true <| List.mem_map_of_mem hfound⟩, heq⟩

-- The names that a character has, in no order.
def nameSet (tags : Tags) : Finset Text :=
  tags.loadTags.toFinset

theorem nameSet_replaceTags : (tags.replaceTags l).nameSet = (uniqueNames l).toFinset := by
  ext name
  simp only [nameSet, List.mem_toFinset, mem_loadTags_replaceTags]

-- A name as it is kept.
def IsTrimmed (name : Text) : Prop :=
  0 < name.length ∧ name.trim = name

theorem isTrimmed_of_mem_uniqueNames (h : name ∈ uniqueNames names) : IsTrimmed name := by
  have ⟨hlen, n, _, htrim⟩ := mem_uniqueNames.mp h
  exact ⟨hlen, by rw [← htrim, CodeUnits.trim_trim]⟩

-- Names that are kept already are kept as they are.
theorem toFinset_uniqueNames (h : ∀ n ∈ l, IsTrimmed n) : (uniqueNames l).toFinset = l.toFinset := by
  ext name
  simp only [List.mem_toFinset, mem_uniqueNames]
  constructor
  case mp =>
    intro ⟨_, n, hn, htrim⟩
    rwa [← htrim, (h n hn).right]
  case mpr => exact fun hn => ⟨(h name hn).left, name, hn, (h name hn).right⟩

end Tags
end Repositories.Characters

namespace Repositories.Characters

inductive Json
  | null
  | boolean (b : Bool)
  | number (n : Rat)
  | string (t : Text)
  | array (items : List Json)
  | object (members : List (Text × Json))

-- The object whose text the column has.
abbrev Ext := List (Text × Json)

namespace Ext

def get (ext : Ext) (name : String) : Option Json :=
  Assoc.get ext <| .ofString name

-- `{ ...ext, ...patch }`
def merge (ext patch : Ext) : Ext :=
  patch.foldl (fun merged member => Assoc.set merged member.fst member.snd) ext

def isTrue : Option Json → Bool
  | some (.boolean b) => b
  | _                 => false

end Ext

def isFavoriteExt (ext : Ext) : Bool :=
  Ext.isTrue (ext.get "favorite") ||
  match ext.get "legacy" with
  | some (.object legacy) => Ext.isTrue <| Ext.get legacy "favorite"
  | _                     => false

-- The columns that a snapshot has besides `ext`.
structure Fields where
  name                    : Text
  avatar                  : Option Text
  description             : Text
  personality             : Text
  scenario                : Text
  firstMessage            : Text
  exampleDialogues        : Text
  systemPrompt            : Option Text
  postHistoryInstructions : Option Text
  creator                 : Option Text
  creatorNotes            : Option Text
  deriving DecidableEq

structure CharacterRow extends Fields where
  id         : Text
  ext        : Ext
  favorite   : Nat
  createdAt  : Int
  updatedAt  : Int
  lastUsedAt : Option Int
  deletedAt  : Option Int

structure Character extends Fields where
  id         : Text
  ext        : Ext
  tags       : List Text
  createdAt  : Int
  updatedAt  : Int
  lastUsedAt : Option Int
  deletedAt  : Option Int

def rowToCharacter (row : CharacterRow) (tags : List Text) : Character :=
  { row with tags }

-- Fields of which some are undefined.
structure Patch where
  name                    : Option Text := none
  avatar                  : Option (Option Text) := none
  description             : Option Text := none
  personality             : Option Text := none
  scenario                : Option Text := none
  firstMessage            : Option Text := none
  exampleDialogues        : Option Text := none
  systemPrompt            : Option (Option Text) := none
  postHistoryInstructions : Option (Option Text) := none
  creator                 : Option (Option Text) := none
  creatorNotes            : Option (Option Text) := none
  deriving DecidableEq

def Patch.set (p : Patch) (f : Fields) : Fields where
  name                    := p.name.getD f.name
  avatar                  := p.avatar.getD f.avatar
  description             := p.description.getD f.description
  personality             := p.personality.getD f.personality
  scenario                := p.scenario.getD f.scenario
  firstMessage            := p.firstMessage.getD f.firstMessage
  exampleDialogues        := p.exampleDialogues.getD f.exampleDialogues
  systemPrompt            := p.systemPrompt.getD f.systemPrompt
  postHistoryInstructions := p.postHistoryInstructions.getD f.postHistoryInstructions
  creator                 := p.creator.getD f.creator
  creatorNotes            := p.creatorNotes.getD f.creatorNotes

def Fields.patch (f : Fields) : Patch where
  name                    := f.name
  avatar                  := some f.avatar
  description             := f.description
  personality             := f.personality
  scenario                := f.scenario
  firstMessage            := f.firstMessage
  exampleDialogues        := f.exampleDialogues
  systemPrompt            := some f.systemPrompt
  postHistoryInstructions := some f.postHistoryInstructions
  creator                 := some f.creator
  creatorNotes            := some f.creatorNotes

structure CharacterUpdate extends Patch where
  tags : Option (List Text) := none
  ext  : Option Ext := none

structure CharacterSnapshot extends Patch where
  ext  : Option Ext := none
  tags : Option (List Text) := none

def rowToSnapshot (row : CharacterRow) (tagNames : List Text) : CharacterSnapshot :=
  { row.toFields.patch with ext := row.ext, tags := tagNames }

-- A snapshot whose text cannot be read is `none`.
structure VersionRow where
  id        : Nat
  version   : Nat
  snapshot  : Option CharacterSnapshot
  createdAt : Int

-- `Partial<CharacterRow>`, and the tags that are to be replaced.
structure Values where
  fields    : Patch
  ext       : Option Ext
  favorite  : Option Nat
  updatedAt : Int
  tags      : Option (List Text)

def Values.set (values : Values) (row : CharacterRow) : CharacterRow :=
  { row with
    toFields  := values.fields.set row.toFields
    ext       := values.ext.getD row.ext
    favorite  := values.favorite.getD row.favorite
    updatedAt := values.updatedAt
  }

def updateValues (existing : CharacterRow) (patch : CharacterUpdate) (now : Int) : Values where
  fields    := patch.toPatch
  ext       := patch.ext.map existing.ext.merge
  favorite  := patch.ext.map fun ext => (isFavoriteExt <| existing.ext.merge ext).toNat
  updatedAt := now
  tags      := patch.tags

def restoreValues (snapshot : CharacterSnapshot) (now : Int) : Values where
  fields    := snapshot.toPatch
  ext       := snapshot.ext
  favorite  := none
  updatedAt := now
  tags      := snapshot.tags

inductive Request
  | update (patch : CharacterUpdate)
  | restoreVersion (versionId : Nat)

-- Where a call is: at which await, and with what it has read. `restores` is the version of a call of
-- `restoreVersion`.
inductive Phase
  | called (request : Request)
  | versionRead (version : VersionRow)
  | rowRead (restores : Option VersionRow) (values : Values) (row : CharacterRow)
  | tagsRead (restores : Option VersionRow) (values : Values) (row : CharacterRow) (tags : List Text)
  | written (row : CharacterRow)
  | returned (answer : Option Character)

-- What a snapshot is to tell of a character.
structure Portrait where
  fields : Fields
  ext    : Ext
  tags   : Finset Text

-- A transaction: of which call, what it has restored, the version that it has added, and the character before
-- and after it.
structure Commit where
  call     : Nat
  restores : Option VersionRow
  version  : VersionRow
  before   : Portrait
  after    : Portrait

-- A character, its calls, and the transactions in their order. Ids of versions are never given twice.
structure State where
  row       : CharacterRow
  tags      : Tags
  versions  : List VersionRow
  versionId : Nat
  calls     : List Phase := []
  log       : List Commit := []

namespace State

variable (s : State)

def portrait : Portrait where
  fields := s.row.toFields
  ext    := s.row.ext
  tags   := s.tags.nameSet

-- `COALESCE(MAX(version), 0) + 1`
def nextVersion : Nat :=
  (s.versions.map (·.version)).foldl max 0 + 1

def snapshotVersion (row : CharacterRow) (tagNames : List Text) (now : Int) : VersionRow where
  id        := s.versionId
  version   := s.nextVersion
  snapshot  := rowToSnapshot row tagNames
  createdAt := now

-- The snapshot of what has been read, the update of the row as it is, and the tags.
def transaction (i : Nat) (restores : Option VersionRow) (values : Values) (row : CharacterRow)
    (tagNames : List Text) (now : Int) : State :=
  let version := s.snapshotVersion row tagNames now
  let written := { s with
    row       := values.set s.row
    tags      := (values.tags.map s.tags.replaceTags).getD s.tags
    versions  := s.versions ++ [version]
    versionId := s.versionId + 1
  }
  { written with log := s.log ++ [⟨i, restores, version, s.portrait, written.portrait⟩] }

def goTo (i : Nat) (phase : Phase) : State :=
  { s with calls := s.calls.set i phase }

-- A call up to its next await.
def advance (i : Nat) (now : Int) : State :=
  match s.calls[i]? with
  | none       => s
  | some phase =>
    match phase with
    | .called (.update patch)             => s.goTo i <| .rowRead none (updateValues s.row patch now) s.row
    | .called (.restoreVersion versionId) =>
      match s.versions.find? (·.id = versionId) with
      | none         => s.goTo i <| .returned none
      | some version => s.goTo i <| .versionRead version
    | .versionRead version                =>
      match version.snapshot with
      | none          => s.goTo i <| .returned none
      | some snapshot => s.goTo i <| .rowRead (some version) (restoreValues snapshot now) s.row
    | .rowRead restores values row        => s.goTo i <| .tagsRead restores values row s.tags.loadTags
    | .tagsRead restores values row tags  =>
      (s.transaction i restores values row tags now).goTo i <| .written (values.set s.row)
    | .written row                        => s.goTo i <| .returned <| rowToCharacter row s.tags.loadTags
    | .returned _                         => s

end State

inductive Event
  | call (request : Request)
  | advance (i : Nat) (now : Int)

def step : State → Event → State
  | s, .call request  => { s with calls := s.calls ++ [.called request] }
  | s, .advance i now => s.advance i now

end Repositories.Characters
