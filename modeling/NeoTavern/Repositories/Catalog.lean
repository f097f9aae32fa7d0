import Mathlib
import NeoTavern.Lib.Assoc
import NeoTavern.Lib.Like
import NeoTavern.Lib.Paging
import NeoTavern.Lib.Table

namespace Repositories.Catalog

abbrev Text := List Char

-- White space, for `trim` and `/\s/` alike.
def isSpace (c : Char) : Bool :=
  c ∈ [
    '\t', '\n', '\x0b', '\x0c', '\r', ' ', '\u00a0', '\u1680', '\u2028', '\u2029', '\u202f', '\u205f', '\u3000',
    '\ufeff'
  ] || '\u2000' ≤ c && c ≤ '\u200a'

def trim (t : Text) : Text :=
  ((t.dropWhile isSpace).reverse.dropWhile isSpace).reverse

structure ParsedCharacterQuery where
  ftsText       : Option Text := none
  includeTags   : List Text := []
  excludeTags   : List Text := []
  author        : Option Text := none
  excludeAuthor : Option Text := none
  excludeName   : Option Text := none
  deriving DecidableEq

inductive QueryField
  | tag
  | author
  | name
  | desc
  | persona
  | scenario
  deriving DecidableEq

inductive TokenKind
  | word
  | phrase
  | field (field : QueryField)
  deriving DecidableEq

structure ParsedToken where
  negated : Bool
  kind    : TokenKind
  value   : Text
  deriving DecidableEq

def maxTokens : Nat :=
  10

def splitQueryTokens (q : Text) : List Text :=
  let rec go (current : Text) (inQuotes : Bool) : Text → List Text
    | []     => if current.length > 0 then [current] else []
    | c :: q =>
      if c = '\x22' then
        go (current ++ [c]) (!inQuotes) q
      else if isSpace c && !inQuotes then
        if current.length > 0 then current :: go [] inQuotes q else go current inQuotes q
      else
        go (current ++ [c]) inQuotes q
  go [] false q

def quoted (value : Text) : Bool :=
  value.length ≥ 2 && value.head? = some '\x22' && value.getLast? = some '\x22'

def unquote (value : Text) : Text :=
  if quoted value then value.tail.dropLast else value

-- Each two quotes become one.
def singleQuotes : Text → Text
  | '\x22' :: '\x22' :: t => '\x22' :: singleQuotes t
  | c :: t          => c :: singleQuotes t
  | []              => []

-- `/^([A-Za-z]+):(.*)$/s`
def fieldMatch (token : Text) : Option (Text × Text) :=
  match token.dropWhile Char.isAlpha with
  | ':' :: value => if token.takeWhile Char.isAlpha = [] then none else some (token.takeWhile Char.isAlpha, value)
  | _            => none

def fieldOf (key : Text) : Option QueryField :=
  match String.ofList (key.map Char.toLower) with
  | "tag"      => some .tag
  | "author"   => some .author
  | "name"     => some .name
  | "desc"     => some .desc
  | "persona"  => some .persona
  | "scenario" => some .scenario
  | _          => none

def parseFree (negated : Bool) (token : Text) : Option ParsedToken :=
  if quoted token then
    let inner := trim <| singleQuotes <| unquote token
    if inner.length = 0 then none else some ⟨negated, .phrase, inner⟩
  else
    let clean := trim <| token.filter fun c => c ≠ '\x22' && c ≠ '\x27'
    if clean.length = 0 then none else some ⟨negated, .word, clean⟩

def parseToken (raw : Text) : Option ParsedToken :=
  let negated := raw.head? = some '-'
  let token := if negated then raw.tail else raw
  if token.length = 0 then
    none
  else
    match fieldMatch token with
    | none              => parseFree negated token
    | some (key, value) =>
      let value := trim <| singleQuotes <| unquote value
      match fieldOf key with
      -- An unknown key or an empty value is free text, with its sign.
      | none       => parseFree negated raw
      | some field => if value.length > 0 then some ⟨negated, .field field, value⟩ else parseFree negated raw

-- Each quote becomes two.
def ftsQuote (value : Text) : Text :=
  value.flatMap fun c => if c = '\x22' then ['\x22', '\x22'] else [c]

def columnOf : QueryField → Text
  | .name     => "name".toList
  | .desc     => "description".toList
  | .persona  => "personality".toList
  | .scenario => "scenario".toList
  -- Tags and authors are no columns of the index.
  | .tag      => []
  | .author   => []

def renderTerm (token : ParsedToken) : Text :=
  ['\x22'] ++ ftsQuote token.value ++ ['\x22'] ++ if token.kind = .word then ['*'] else []

-- The filters, and the terms for and against a match.
structure Collected where
  parsed    : ParsedCharacterQuery := {}
  positives : List Text := []
  negatives : List Text := []
  deriving DecidableEq

def collect (c : Collected) (raw : Text) : Collected :=
  match parseToken raw with
  | none       => c
  | some token =>
    match token.kind, token.negated with
    | .field .tag, true     => { c with parsed.excludeTags := c.parsed.excludeTags ++ [token.value] }
    | .field .tag, false    => { c with parsed.includeTags := c.parsed.includeTags ++ [token.value] }
    | .field .author, true  => { c with parsed.excludeAuthor := some token.value }
    | .field .author, false => { c with parsed.author := some token.value }
    | .field .name, true    => { c with parsed.excludeName := some token.value }
    -- The index cannot negate columns.
    | .field _, true        => c
    | .field field, false   => { c with
        positives := c.positives ++ [columnOf field ++ " : \"".toList ++ ftsQuote token.value ++ "\"*".toList]
      }
    | _, true               => { c with negatives := c.negatives ++ [renderTerm token] }
    | _, false              => { c with positives := c.positives ++ [renderTerm token] }

def parseCharacterQuery (q : Text) : ParsedCharacterQuery :=
  let c := ((splitQueryTokens q).take maxTokens).foldl collect {}
  if c.positives.length > 0 then
    { c.parsed with
      ftsText := some <| [' '].intercalate <| c.positives ++ c.negatives.map ("NOT ".toList ++ ·)
    }
  else
    c.parsed

def likePattern (value : Text) : Text :=
  ['%'] ++ Like.escape value ++ ['%']

def prefixPattern (value : Text) : Text :=
  Like.escape value ++ ['%']

example : parseCharacterQuery "tag:NSFW author:Tidyup \"magic sword\" -tag:beta -dark".toList = {
    ftsText     := some "\"magic sword\" NOT \"dark\"*".toList
    includeTags := ["NSFW".toList]
    excludeTags := ["beta".toList]
    author      := some "Tidyup".toList
  } := by decide +kernel

-- `ν` has the numbers: times, counts and ranks.
structure CharacterFields (ν : Type) where
  id                      : Text
  name                    : Text
  avatar                  : Option Text := none
  description             : Text := []
  personality             : Text := []
  scenario                : Text := []
  firstMessage            : Text := []
  exampleDialogues        : Text := []
  systemPrompt            : Option Text := none
  postHistoryInstructions : Option Text := none
  creator                 : Option Text := none
  creatorNotes            : Option Text := none
  ext                     : Text := "{}".toList
  createdAt               : ν
  updatedAt               : ν
  lastUsedAt              : Option ν := none
  deletedAt               : Option ν := none
  deriving DecidableEq

structure CharacterRow (ν : Type) extends CharacterFields ν where
  favorite   : ν
  chatCount  : ν
  tokenCount : ν
  deriving DecidableEq

structure Character (ν : Type) extends CharacterFields ν where
  tags : List Text
  deriving DecidableEq

structure Tag where
  id   : Text
  name : Text
  deriving DecidableEq

structure Db (ν : Type) where
  characters    : Table Text (CharacterRow ν) (·.id)
  tags          : Table Text Tag (·.id)
  characterTags : List (Text × Text)

section Rows

variable {ν : Type} (db : Db ν)

-- Whether a character has a tag with such a name, by the join of the two tables.
def existsTag (characterId : Text) (p : Text → Bool) : Bool :=
  db.characterTags.any fun link => link.fst = characterId &&
    db.tags.rows.any fun tag => link.snd = tag.id && p tag.name

def loadTags (characterId : Text) : List Text :=
  (db.characterTags.filter (·.fst = characterId)).filterMap fun link => (db.tags.get? link.snd).map (·.name)

def rowToCharacter (row : CharacterRow ν) : Character ν :=
  { row.toCharacterFields with tags := loadTags db row.id }

end Rows

-- Texts of cursors, which read back as what has been written. Other values than texts and numbers are `none`.
structure Cursors (ν κ : Type) where
  encode : List (String × (Text ⊕ ν)) → κ
  decode : κ → Option (List (String × Option (Text ⊕ ν)))
  reads  : ∀ value, decode (encode value) = some (value.map fun member => (member.fst, some member.snd))

abbrev Decoded (ν : Type) := List (String × Option (Text ⊕ ν))

section Members

variable {ν : Type}

def textAt (cursor : Decoded ν) (letter : String) : Option Text :=
  match Assoc.get cursor letter with
  | some (some (.inl t)) => some t
  | _                    => none

def numberAt (cursor : Decoded ν) (letter : String) : Option ν :=
  match Assoc.get cursor letter with
  | some (some (.inr n)) => some n
  | _                    => none

end Members

inductive Direction
  | asc
  | desc
  deriving DecidableEq

-- What stands behind `x`, in SQL.
def Direction.behind {τ : Type} [LinearOrder τ] : Direction → (column x : τ) → Bool
  | asc, column, x  => x < column
  | desc, column, x => column < x

-- One term of an `ORDER BY`: a number or a text, in one of the directions.
abbrev Term (ν : Type) := (ν ⊕ₗ νᵒᵈ) ⊕ₗ (Text ⊕ₗ Textᵒᵈ)

namespace Term

variable {ν : Type}

def number (n : ν) : Direction → Term ν
  | .asc  => toLex <| .inl <| toLex <| .inl n
  | .desc => toLex <| .inl <| toLex <| .inr <| .toDual n

def text (t : Text) : Direction → Term ν
  | .asc  => toLex <| .inr <| toLex <| .inl t
  | .desc => toLex <| .inr <| toLex <| .inr <| .toDual t

end Term

structure SortDescriptor (ν : Type) where
  orderBy         : CharacterRow ν → List (Term ν)
  cursorPredicate : Decoded ν → Option (CharacterRow ν → Bool)
  encodeCursor    : CharacterRow ν → List (String × (Text ⊕ ν))

section Descriptors

variable {ν : Type} [LinearOrder ν]

-- By name and id.
def byName (direction : Direction) : SortDescriptor ν where
  orderBy row         := [.text row.name direction, .text row.id direction]
  cursorPredicate c   :=
    match textAt c "n", textAt c "i" with
    | some n, some i => some fun row =>
      direction.behind row.name n || row.name = n && direction.behind row.id i
    | _, _           => none
  encodeCursor row    := [("n", .inl row.name), ("i", .inl row.id)]

-- By a number and the id, both in one direction.
def byNumber (direction : Direction) (letter : String) (column : CharacterRow ν → ν) : SortDescriptor ν where
  orderBy row         := [.number (column row) direction, .text row.id direction]
  cursorPredicate c   :=
    match numberAt c letter, textAt c "i" with
    | some n, some i => some fun row =>
      direction.behind (column row) n || column row = n && direction.behind row.id i
    | _, _           => none
  encodeCursor row    := [(letter, .inr <| column row), ("i", .inl row.id)]

-- By a number, the name and the id, of which the last two ascend.
def byCount (direction : Direction) (letter : String) (column : CharacterRow ν → ν) : SortDescriptor ν where
  orderBy row         := [.number (column row) direction, .text row.name .asc, .text row.id .asc]
  cursorPredicate c   :=
    match numberAt c letter, textAt c "n", textAt c "i" with
    | some k, some n, some i => some fun row =>
      direction.behind (column row) k ||
        (column row = k && Direction.asc.behind row.name n ||
          column row = k && row.name = n && Direction.asc.behind row.id i)
    | _, _, _                => none
  encodeCursor row    := [(letter, .inr <| column row), ("n", .inl row.name), ("i", .inl row.id)]

end Descriptors

-- The values of the option, the deprecated ones last.
inductive SortOption
  | name
  | nameDesc
  | newest
  | oldest
  | favorites
  | used
  | chatsMost
  | chatsLeast
  | tokensMost
  | tokensLeast
  | random
  | relevance
  | recent
  | created
  | usage
  deriving DecidableEq

-- Sorts with pages.
inductive PagedSort
  | name
  | nameDesc
  | newest
  | oldest
  | used
  | favorites
  | chatsMost
  | chatsLeast
  | tokensMost
  | tokensLeast
  deriving DecidableEq

inductive CharacterSort
  | paged (sort : PagedSort)
  | random
  | relevance
  deriving DecidableEq

def normalizeSort : Option SortOption → CharacterSort
  | some .recent      => .paged .newest
  | some .created     => .paged .oldest
  | some .usage       => .paged .used
  | none              => .paged .newest
  | some .name        => .paged .name
  | some .nameDesc    => .paged .nameDesc
  | some .newest      => .paged .newest
  | some .oldest      => .paged .oldest
  | some .favorites   => .paged .favorites
  | some .used        => .paged .used
  | some .chatsMost   => .paged .chatsMost
  | some .chatsLeast  => .paged .chatsLeast
  | some .tokensMost  => .paged .tokensMost
  | some .tokensLeast => .paged .tokensLeast
  | some .random      => .random
  | some .relevance   => .relevance

-- `SORT_DESCRIPTORS`
def sortDescriptor {ν : Type} [LinearOrder ν] [Zero ν] : PagedSort → SortDescriptor ν
  | .name        => byName .asc
  | .nameDesc    => byName .desc
  | .newest      => byNumber .desc "c" (·.createdAt)
  | .oldest      => byNumber .asc "c" (·.createdAt)
  | .used        => byNumber .desc "u" (·.lastUsedAt.getD 0)
  | .favorites   => byCount .desc "f" (·.favorite)
  | .chatsMost   => byCount .desc "k" (·.chatCount)
  | .chatsLeast  => byCount .asc "k" (·.chatCount)
  | .tokensMost  => byCount .desc "k" (·.tokenCount)
  | .tokensLeast => byCount .asc "k" (·.tokenCount)

structure CharacterListOptions (κ : Type) where
  cursor         : Option κ := none
  limit          : Option ℕ+ := none
  tag            : Option Text := none
  q              : Option Text := none
  sort           : Option SortOption := none
  includeDeleted : Bool := false

structure CursorPage (ν κ : Type) where
  items      : List (Character ν)
  nextCursor : Option κ
  hasMore    : Bool
  deriving DecidableEq

section Conditions

variable {ν κ : Type} (db : Db ν) (parsed : Option ParsedCharacterQuery) (options : CharacterListOptions κ)

-- `NULL LIKE …` is not true.
def creatorLike (row : CharacterRow ν) (pattern : Text) : Bool :=
  row.creator.any <| Like.like pattern

-- The option `tag`, where it is not empty.
def tagOption : Option Text :=
  options.tag.filter (· ≠ [])

-- The conditions of `listFiltered` apart from the one of its cursor.
def filteredConds : List (CharacterRow ν → Bool) :=
  let deleted : List (CharacterRow ν → Bool) :=
    if options.includeDeleted then [] else [fun c => c.deletedAt.isNone]
  let tag : List (CharacterRow ν → Bool) :=
    (tagOption options).toList.map fun tag c => existsTag db c.id (· = tag)
  deleted ++ tag ++ match parsed with
  | none        => []
  | some parsed =>
    (parsed.includeTags.map fun tagName (c : CharacterRow ν) => existsTag db c.id <| Like.like <| prefixPattern tagName) ++
    (parsed.excludeTags.map fun tagName (c : CharacterRow ν) => !existsTag db c.id (Like.like <| prefixPattern tagName)) ++
    (parsed.author.toList.map fun author (c : CharacterRow ν) => creatorLike c <| likePattern author) ++
    (parsed.excludeAuthor.toList.map fun author (c : CharacterRow ν) =>
      c.creator.isNone || c.creator.any fun creator => !Like.like (likePattern author) creator) ++
    parsed.excludeName.toList.map fun name (c : CharacterRow ν) => !Like.like (likePattern name) c.name

-- The conditions of `listRandom`.
def randomConds : List (CharacterRow ν → Bool) :=
  let deleted : List (CharacterRow ν → Bool) :=
    if options.includeDeleted then [] else [fun c => c.deletedAt.isNone]
  let tag : List (CharacterRow ν → Bool) :=
    (tagOption options).toList.map fun tag c => existsTag db c.id (· = tag)
  deleted ++ tag ++ match parsed with
  | none        => []
  | some parsed =>
    (parsed.includeTags.map fun tagName (c : CharacterRow ν) => existsTag db c.id <| Like.like <| prefixPattern tagName) ++
    (parsed.excludeTags.map fun tagName (c : CharacterRow ν) => !existsTag db c.id (Like.like <| prefixPattern tagName)) ++
    (parsed.author.toList.map fun author (c : CharacterRow ν) => creatorLike c <| likePattern author) ++
    (parsed.excludeAuthor.toList.map fun author (c : CharacterRow ν) =>
      c.creator.isNone || c.creator.any fun creator => !Like.like (likePattern author) creator) ++
    parsed.excludeName.toList.map fun name (c : CharacterRow ν) => !Like.like (likePattern name) c.name

-- The conditions of `listByRelevance` apart from the match and the cursor. `f` is the id in the index, which the
-- join makes that of the character.
def relevanceConds (parsed : ParsedCharacterQuery) : List (Text → CharacterRow ν → Bool) :=
  let deleted : List (Text → CharacterRow ν → Bool) :=
    if options.includeDeleted then [] else [fun _ c => c.deletedAt.isNone]
  let tag : List (Text → CharacterRow ν → Bool) :=
    (tagOption options).toList.map fun tag f _ => existsTag db f fun name => Like.folded name = Like.folded tag
  deleted ++ tag ++
  (parsed.includeTags.map fun tagName (f : Text) (_ : CharacterRow ν) => existsTag db f <| Like.like <| prefixPattern tagName) ++
  (parsed.excludeTags.map fun tagName (f : Text) (_ : CharacterRow ν) => !existsTag db f (Like.like <| prefixPattern tagName)) ++
  (parsed.author.toList.map fun author (_ : Text) (c : CharacterRow ν) => creatorLike c <| likePattern author) ++
  (parsed.excludeAuthor.toList.map fun author (_ : Text) (c : CharacterRow ν) =>
    c.creator.isNone || c.creator.any fun creator => !Like.like (likePattern author) creator) ++
  parsed.excludeName.toList.map fun name (_ : Text) (c : CharacterRow ν) => !Like.like (likePattern name) c.name

end Conditions

-- What the database does besides: the texts of cursors, and the matches of the index with their ranks by the ids
-- of characters, or the error of an expression.
structure Env (ν κ : Type) where
  cursors : Cursors ν κ
  rank    : Text → Option (Text → Option ν)

section Pages

variable {ν κ : Type} [LinearOrder ν] [Zero ν] (env : Env ν κ) (db : Db ν)

def decodeCursor (options : CharacterListOptions κ) : Option (Decoded ν) :=
  options.cursor.bind env.cursors.decode

def listFiltered (parsed : Option ParsedCharacterQuery) (options : CharacterListOptions κ) (limit : Nat)
    (sort : PagedSort) : CursorPage ν κ :=
  let descriptor := sortDescriptor sort
  let conds := filteredConds db parsed options ++
    ((decodeCursor env options).bind descriptor.cursorPredicate).toList
  let rows := (Paging.orderBy descriptor.orderBy <| db.characters.rows.filter fun c => conds.all (· c)).take (limit + 1)
  let hasMore := limit < rows.length
  let page := if hasMore then rows.take limit else rows
  {
    items      := page.map (rowToCharacter db)
    nextCursor := if hasMore then page.getLast?.map (env.cursors.encode <| descriptor.encodeCursor ·) else none
    hasMore
  }

-- `shuffle` is the order of `random()`.
def listRandom (shuffle : List (CharacterRow ν) → List (CharacterRow ν)) (parsed : Option ParsedCharacterQuery)
    (options : CharacterListOptions κ) (limit : Nat) : CursorPage ν κ :=
  let conds := randomConds db parsed options
  let rows := (shuffle <| db.characters.rows.filter fun c => conds.all (· c)).take limit
  { items := rows.map (rowToCharacter db), nextCursor := none, hasMore := false }

structure Hit (ν : Type) where
  id   : Text
  rank : ν
  deriving DecidableEq

def hitKey (hit : Hit ν) : List (Term ν) :=
  [.number hit.rank .asc, .text hit.id .asc]

-- The condition of a cursor by rank and id.
def hitPredicate (cursor : Option (Decoded ν)) (hit : Hit ν) : Bool :=
  match cursor.bind (numberAt · "r"), cursor.bind (textAt · "i") with
  | some cursorR, some cursorI => cursorR < hit.rank || hit.rank = cursorR && cursorI < hit.id
  | _, _                       => true

def hitCursor (hit : Hit ν) : List (String × (Text ⊕ ν)) :=
  [("r", .inr hit.rank), ("i", .inl hit.id)]

-- The join of the index with the characters, for an expression that can be matched.
def matches_ (rank : Text → Option ν) (parsed : ParsedCharacterQuery) (options : CharacterListOptions κ) :
    List (Hit ν) :=
  db.characters.rows.filterMap fun c =>
    if (relevanceConds db options parsed).all (· c.id c) then (rank c.id).map (⟨c.id, ·⟩) else none

def listByRelevance (rank : Text → Option ν) (parsed : ParsedCharacterQuery) (options : CharacterListOptions κ)
    (limit : Nat) : CursorPage ν κ :=
  let hits := (Paging.orderBy hitKey <| (matches_ db rank parsed options).filter <|
    hitPredicate <| decodeCursor env options).take (limit + 1)
  let hasMore := limit < hits.length
  let page := if hasMore then hits.take limit else hits
  {
    items      := page.filterMap fun hit => (db.characters.get? hit.id).map (rowToCharacter db)
    nextCursor := if hasMore then page.getLast?.map (env.cursors.encode <| hitCursor ·) else none
    hasMore
  }

scoped instance neZero50 : NeZero 50 := ⟨by simp⟩

def list (shuffle : List (CharacterRow ν) → List (CharacterRow ν)) (options : CharacterListOptions κ) :
    CursorPage ν κ :=
  let limit := (options.limit.getD 50 : ℕ+)
  let rawSort := normalizeSort options.sort
  let rawQ := trim <| options.q.getD []
  let parsed := if rawQ.length > 0 then some <| parseCharacterQuery rawQ else none
  let filtered : CursorPage ν κ :=
    match rawSort with
    | .random     => listRandom db shuffle parsed options limit
    | .relevance  => listFiltered env db parsed options limit .newest
    | .paged sort => listFiltered env db parsed options limit sort
  match parsed with
  | none        => filtered
  | some query  =>
    match query.ftsText with
    | none         => filtered
    | some ftsText =>
      match env.rank ftsText with
      | some rank => listByRelevance env db rank query options limit
      | none      => filtered

end Pages
end Repositories.Catalog
