import Mathlib
import NeoTavern.Lib.Assoc
import NeoTavern.Lib.Base64
import NeoTavern.Lib.Lists
import NeoTavern.Lib.Paging
import NeoTavern.Repositories.Search

namespace Repositories.Chats

-- The contracts have no empty identifiers.
abbrev Id := { s : String // s ≠ "" }

inductive Origin
  | checkpoint
  | branch
  deriving DecidableEq

structure Chat where
  id              : String
  characterId     : Option String := none
  personaId       : Option String := none
  title           : String
  activeBranchId  : Option String := none
  backgroundId    : Option String := none
  summary         : String := ""
  messageCount    : Int := 0
  createdAt       : Int
  updatedAt       : Int
  deletedAt       : Option Int := none
  parentChatId    : Option String := none
  origin          : Option Origin := none
  sourceMessageId : Option String := none
  deriving DecidableEq

structure ChatRow extends Chat where
  sortOrder : Int := 0
  deriving DecidableEq

structure CharacterRow where
  id     : String
  name   : String
  avatar : Option String
  deriving DecidableEq

structure ChatListRecord extends Chat where
  characterName   : Option String
  characterAvatar : Option String
  deriving DecidableEq

-- The two full text indexes give the ids of chats, those of messages once for each chat.
structure Db where
  chats       : Table String ChatRow fun row => row.id
  characters  : Table String CharacterRow CharacterRow.id
  chatsFts    : CodeUnits → List String := fun _ => []
  messagesFts : CodeUnits → List String := fun _ => []

inductive Json
  | null
  | boolean (b : Bool)
  | number (n : Rat)
  | string (s : String)
  | array (items : List Json)
  | object (members : List (String × Json))

-- What the runtime provides to make a text of a cursor and to read it.
structure Runtime where
  stringify   : Json → String
  parse       : String → Option Json
  toBase64Url : String → String
  ofBase64Url : String → String

section Cursor

variable (rt : Runtime)

def encodeCursor (value : List (String × Json)) : String :=
  rt.toBase64Url <| rt.stringify <| .object value

def decodeCursor : Option String → Option (List (String × Json))
  | none        => none
  | some cursor =>
    if cursor = "" then
      none
    else
      match rt.parse <| rt.ofBase64Url cursor with
      | some (.object members) => some members
      | _                      => none

def numberAt (decoded : Option (List (String × Json))) (key : String) : Option Rat :=
  match decoded.bind (Assoc.get · key) with
  | some (.number n) => some n
  | _                => none

def stringAt (decoded : Option (List (String × Json))) (key : String) : Option String :=
  match decoded.bind (Assoc.get · key) with
  | some (.string s) => some s
  | _                => none

end Cursor

inductive ChatListSort
  | manual
  | recent
  deriving DecidableEq

structure ChatListOptions where
  cursor         : Option String := none
  limit          : Option Nat := none
  characterId    : Option String := none
  q              : Option CodeUnits := none
  includeDeleted : Bool := false
  sort           : Option ChatListSort := none

structure CursorPage where
  items      : List ChatListRecord
  nextCursor : Option String
  hasMore    : Bool
  deriving DecidableEq

section List

variable (rt : Runtime) (db : Db) (options : ChatListOptions)

def searchHits (q : CodeUnits) : List String :=
  let ftsQuery := Search.buildFtsQuery q.trim
  if ftsQuery = [] then [] else (db.chatsFts ftsQuery).take 1000 ++ (db.messagesFts ftsQuery).take 1000

-- The conditions of a listing apart from the one of its cursor.
def selected (row : ChatRow) : Bool :=
  (options.includeDeleted || row.deletedAt.isNone) &&
  ((options.characterId.filter (· ≠ "")).all fun characterId => row.characterId = some characterId) &&
  ((options.q.filter (·.trim ≠ [])).all fun q => row.id ∈ searchHits db q)

-- `sort_order ASC, updated_at DESC, id DESC`; the recent listing leaves the first out.
def orderKey (sort : ChatListSort) (row : ChatRow) : Int ×ₗ Intᵒᵈ ×ₗ Stringᵒᵈ :=
  let sortOrder := match sort with
    | .manual => row.sortOrder
    | .recent => 0
  toLex (sortOrder, toLex (.toDual row.updatedAt, .toDual row.id))

def afterCursor (sort : ChatListSort) (row : ChatRow) : Bool :=
  let decoded := decodeCursor rt options.cursor
  let older (c : Rat) (i : String) : Bool := row.updatedAt < c || row.updatedAt = c && row.id < i
  match sort, stringAt decoded "s", numberAt decoded "o", numberAt decoded "c", stringAt decoded "i" with
  | .recent, some "recent", _, some c, some i => older c i
  | .manual, _, some o, some c, some i        => o < row.sortOrder || row.sortOrder = o && older c i
  | _, _, _, _, _                             => true

def cursorValue (sort : ChatListSort) (row : ChatRow) : List (String × Json) :=
  match sort with
  | .recent => [("s", .string "recent"), ("c", .number row.updatedAt), ("i", .string row.id)]
  | .manual => [("o", .number row.sortOrder), ("c", .number row.updatedAt), ("i", .string row.id)]

-- The left join with `characters`.
def listRecord (row : ChatRow) : ChatListRecord :=
  let character := row.characterId.bind db.characters.get?
  { toChat := row.toChat, characterName := character.map (·.name), characterAvatar := character.bind (·.avatar) }

def list : CursorPage :=
  let limit := options.limit.getD 50
  let sort := options.sort.getD .manual
  let rows := (Paging.orderBy (orderKey sort) <| db.chats.rows.filter fun row =>
    selected db options row && afterCursor rt options sort row).take (limit + 1)
  let hasMore := limit < rows.length
  let page := if hasMore then rows.take limit else rows
  {
    items      := page.map (listRecord db)
    nextCursor := if hasMore then page.getLast?.map fun last => encodeCursor rt <| cursorValue sort last else none
    hasMore
  }

end List

structure ReorderResult where
  reordered  : Nat
  invalidIds : List String
  deriving DecidableEq

section Reorder

variable (db : Db) (characterId : Id)

-- The live chats of a character in their effective order.
def ownedRows : List ChatRow :=
  Paging.orderBy (orderKey .manual) <| db.chats.rows.filter fun row =>
    row.characterId = some characterId.val && row.deletedAt.isNone

def ChatRow.moved (row : ChatRow) (index : Nat) : ChatRow :=
  { row with sortOrder := index + 1 }

@[simp]
theorem ChatRow.moved_id (row : ChatRow) (index : Nat) : (row.moved index).id = row.id :=
  rfl

-- The statements of the transaction, one for each id.
def renumber (chats : Table String ChatRow fun row => row.id) (ordered : List (String × Nat)) :
    Table String ChatRow fun row => row.id :=
  ordered.foldl (fun chats entry => chats.update (·.id = entry.fst) (·.moved entry.snd) (·.moved_id entry.snd)) chats

def reorder (orderedIds : List String) : Except String (Db × ReorderResult) :=
  let unique := orderedIds.eraseDups
  if unique.length ≠ orderedIds.length then
    .error "CHAT_REORDER_DUPLICATE_IDS"
  else
    let rows := ownedRows db characterId
    let owned := rows.map (·.id)
    let invalidIds := unique.filter (· ∉ owned)
    let reordered := unique.filter (· ∈ owned)
    let rest := rows.filter (·.id ∉ reordered)
    let ordered := reordered ++ rest.map (·.id)
    if ordered.length = 0 then
      .ok (db, { reordered := 0, invalidIds })
    else
      .ok ({ db with chats := renumber db.chats ordered.zipIdx }, { reordered := reordered.length, invalidIds })

end Reorder

section Listing

variable {rt : Runtime} {db : Db} {options : ChatListOptions} {sort : ChatListSort} {row row' : ChatRow} {n : Nat}

-- All that a listing shows, in its order.
def listing (db : Db) (options : ChatListOptions) : List ChatRow :=
  Paging.orderBy (orderKey <| options.sort.getD .manual) <| db.chats.rows.filter (selected db options)

theorem id_of_orderKey (h : orderKey sort row = orderKey sort row') : row.id = row'.id := by
  simp only [orderKey, EmbeddingLike.apply_eq_iff_eq, Prod.mk.injEq] at h
  exact h.right.right

theorem chats_pairwise (db : Db) (sort : ChatListSort) :
    db.chats.rows.Pairwise (orderKey sort · ≠ orderKey sort ·) := by
  have hne : db.chats.rows.Pairwise (·.id ≠ ·.id) := List.pairwise_map.mp db.chats.nodup
  exact hne.imp fun hne he => hne <| id_of_orderKey he

theorem listing_pairwise :
    (listing db options).Pairwise (orderKey (options.sort.getD .manual) · < orderKey (options.sort.getD .manual) ·) :=
  Paging.orderBy_pairwise <| (chats_pairwise db _).filter _

theorem mem_listing : row ∈ listing db options ↔ row ∈ db.chats ∧ selected db options row := by
  rw [listing, Paging.mem_orderBy, List.mem_filter]
  rfl

theorem listing_perm (db : Db) (options : ChatListOptions) :
    (listing db options).Perm (db.chats.rows.filter (selected db options)) :=
  Paging.orderBy_perm

theorem listing_ids_nodup : ((listing db options).map (·.id)).Nodup := by
  apply List.pairwise_map.mpr
  have hlt : (listing db options).Pairwise _ := listing_pairwise
  apply hlt.imp_of_mem
  intro row row' hrow hrow' hlt he
  have heq := Table.eq_of_mem_of_key_eq (mem_listing.mp hrow).left (mem_listing.mp hrow').left he
  exact absurd hlt <| heq ▸ lt_irrefl _

theorem orderKey_lt_iff : orderKey sort row < orderKey sort row' ↔
    (sort = .manual ∧ row.sortOrder < row'.sortOrder) ∨ (sort = .manual → row.sortOrder = row'.sortOrder) ∧
      (row'.updatedAt < row.updatedAt ∨ row'.updatedAt = row.updatedAt ∧ row'.id < row.id) := by
  cases sort <;> simp [orderKey, Prod.Lex.toLex_lt_toLex, eq_comm (a := row.updatedAt)]

-- The text of a cursor reads back as what has been written.
def ReadsBack (rt : Runtime) (sort : ChatListSort) (row : ChatRow) : Prop :=
  decodeCursor rt (some <| encodeCursor rt <| cursorValue sort row) = some (cursorValue sort row)

theorem afterCursor_none : afterCursor rt { options with cursor := none } sort row := by
  cases sort <;> simp [afterCursor, decodeCursor, stringAt, numberAt]

-- What stands behind the row of a cursor.
theorem afterCursor_eq (h : ReadsBack rt sort row) :
    afterCursor rt { options with cursor := some <| encodeCursor rt <| cursorValue sort row } sort row' =
      decide (orderKey sort row < orderKey sort row') := by
  rw [Bool.eq_iff_iff, decide_eq_true_iff, orderKey_lt_iff]
  cases sort
  case manual =>
    have h : decodeCursor rt (some <| encodeCursor rt <| cursorValue .manual row) =
        some (cursorValue .manual row) :=
      h
    simp only [afterCursor, h]
    simp [cursorValue, stringAt, numberAt, Assoc.get, eq_comm (a := row'.sortOrder)]
  case recent =>
    have h : decodeCursor rt (some <| encodeCursor rt <| cursorValue .recent row) =
        some (cursorValue .recent row) :=
      h
    simp only [afterCursor, h]
    simp [cursorValue, stringAt, numberAt, Assoc.get]

end Listing

section Walk

variable {rt : Runtime} {db : Db} {options : ChatListOptions} {n : Nat}

-- The rows of one page.
def rowPage (rt : Runtime) (options : ChatListOptions) (n : Nat) (db : Db) (cursor : Option String) :
    Except Unit (Paging.Page ChatRow String) :=
  let sort := options.sort.getD .manual
  .ok <| Paging.cut n (fun row => encodeCursor rt <| cursorValue sort row) <|
    Paging.orderBy (orderKey sort) <| db.chats.rows.filter fun row =>
      selected db options row && afterCursor rt { options with cursor } sort row

-- One page of a walk in pages of `n`.
def listPage (rt : Runtime) (options : ChatListOptions) (n : Nat) (db : Db) (cursor : Option String) :
    Except Unit (Paging.Page ChatListRecord String) :=
  let page := list rt db { options with cursor, limit := some n }
  .ok ⟨page.items, page.nextCursor⟩

theorem listPage_eq (hn : 0 < n) (h : rowPage rt options n db cursor = .ok p) :
    listPage rt options n db cursor = .ok ⟨p.items.map (listRecord db), p.next⟩ := by
  simp only [rowPage, Except.ok.injEq] at h
  rw [← Paging.cut_take] at h
  simp only [listPage, list, Option.getD_some, Except.ok.injEq, Paging.Page.mk.injEq]
  -- The conditions do not look at the limit.
  have hselected (row : ChatRow) :
      selected db { options with cursor, limit := some n } row = selected db options row :=
    rfl
  have hafter (sort : ChatListSort) (row : ChatRow) :
      afterCursor rt { options with cursor, limit := some n } sort row =
        afterCursor rt { options with cursor } sort row :=
    rfl
  simp only [hselected, hafter]
  generalize hrows : List.take (n + 1) _ = rows at h ⊢
  subst h
  by_cases hlt : n < rows.length
  case neg =>
    have htake : rows.take n = rows := List.take_of_length_le <| Nat.not_lt.mp hlt
    simp [Paging.cut, hlt, htake]
  case pos =>
    have hlast : (rows.take n).getLast? = rows[n - 1]? := by
      rw [List.getLast?_eq_getElem?, List.length_take, Nat.min_eq_left hlt.le, List.getElem?_take,
        if_pos (by omega)]
    simp [Paging.cut, hlt, hlast]

-- The rows that a cursor leaves.
def LeftBy (rt : Runtime) (db : Db) (options : ChatListOptions) (cursor : Option String) (rows : List ChatRow) :
    Prop :=
  let sort := options.sort.getD .manual
  cursor = none ∧ rows = listing db options ∨
  ∃ last ∈ listing db options, cursor = some (encodeCursor rt <| cursorValue sort last) ∧
    rows = (listing db options).filter (orderKey sort last < orderKey sort ·)

theorem rowPage_eq (hrt : ∀ row ∈ db.chats, ReadsBack rt (options.sort.getD .manual) row)
    (h : LeftBy rt db options cursor rows) :
    rowPage rt options n db cursor =
      .ok (Paging.cut n (fun row => encodeCursor rt <| cursorValue (options.sort.getD .manual) row) rows) := by
  simp only [rowPage]
  congr 2
  cases h
  case inl h =>
    have ⟨hcursor, hrows⟩ := h
    rw [hcursor, hrows, listing]
    congr 2
    funext row
    rw [afterCursor_none, Bool.and_true]
  case inr h =>
    have ⟨last, hlast, hcursor, hrows⟩ := h
    have hback := hrt last (mem_listing.mp hlast).left
    rw [hcursor, hrows]
    apply Paging.orderBy_filter_eq (chats_pairwise db _) (listing_pairwise.filter _)
    intro row
    rw [List.mem_filter, mem_listing, Bool.and_eq_true, afterCursor_eq hback, Table.mem_def, and_assoc]

theorem rowPage_walk (hn : 0 < n) (hrt : ∀ row ∈ db.chats, ReadsBack rt (options.sort.getD .manual) row) :
    Paging.Walk (rowPage rt options n) Eq db none (listing db options) := by
  apply Paging.walk_of_windows hn rfl (fun _ _ => rowPage_eq hrt) ?_ (.inl ⟨rfl, rfl⟩)
  intro cursor pre b post h _ _
  have hsorted : (listing db options).Pairwise _ := listing_pairwise
  cases h
  case inl h =>
    have ⟨_, hrows⟩ := h
    have hall : (listing db options).filter (fun _ => true) = pre ++ b :: post := by
      rw [List.filter_true, hrows]
    have ⟨hb, hpost⟩ := Paging.rest_of_filter hsorted (fun _ _ _ _ => rfl) hall
    exact .inr ⟨b, hb, rfl, hpost⟩
  case inr h =>
    have ⟨last, _, _, hrows⟩ := h
    have hbehind (x y : ChatRow)
        (hx : decide (orderKey (options.sort.getD .manual) last < orderKey (options.sort.getD .manual) x))
        (hlt : orderKey (options.sort.getD .manual) x < orderKey (options.sort.getD .manual) y) :
        decide (orderKey (options.sort.getD .manual) last < orderKey (options.sort.getD .manual) y) :=
      decide_eq_true <| (of_decide_eq_true hx).trans hlt
    have ⟨hb, hpost⟩ := Paging.rest_of_filter hsorted hbehind hrows.symm
    exact .inr ⟨b, hb, rfl, hpost⟩

-- Following the cursors gives the listing, once each chat, in pages of whatever size.
theorem listPage_walk_iff (hn : 0 < n) (hrt : ∀ row ∈ db.chats, ReadsBack rt (options.sort.getD .manual) row)
    (items : List ChatListRecord) :
    Paging.Walk (listPage rt options n) Eq db none items ↔
      items = (listing db options).map (listRecord db) := by
  have hwalk : Paging.Walk (listPage rt options n) Eq db none ((listing db options).map (listRecord db)) :=
    (rowPage_walk hn hrt).map fun _ _ => listPage_eq hn
  constructor
  case mp  => exact fun w => w.unique hwalk
  case mpr => exact fun h => h ▸ hwalk

end Walk

section Order

variable {db db' : Db} {chats : Table String ChatRow fun row => row.id} {characterId : Id} {ids ordered : List String}
  {options : ChatListOptions} {row row' : ChatRow} {id : String} {k : Nat}

-- A row after the statements for `ids`, whose places count from `k`.
def renumbered (ids : List String) (k : Nat) (row : ChatRow) : ChatRow :=
  if row.id ∈ ids then row.moved (k + ids.idxOf row.id) else row

@[simp]
theorem renumbered_toChat : (renumbered ids k row).toChat = row.toChat := by
  simp only [renumbered]
  split <;> rfl

theorem renumbered_of_not_mem (h : row.id ∉ ids) : renumbered ids k row = row :=
  if_neg h

theorem renumbered_sortOrder (h : row.id ∈ ids) :
    (renumbered ids k row).sortOrder = (k + ids.idxOf row.id : Nat) + 1 := by
  rw [renumbered, if_pos h, ChatRow.moved]

theorem renumbered_cons (h : id ∉ ids) :
    renumbered ids (k + 1) (if row.id = id then row.moved k else row) = renumbered (id :: ids) k row := by
  by_cases he : row.id = id
  case pos =>
    subst he
    rw [if_pos rfl, renumbered_of_not_mem (by exact h), renumbered, if_pos List.mem_cons_self, List.idxOf_cons_self,
      Nat.add_zero]
  case neg =>
    have hne : id ≠ row.id := Ne.symm he
    have hplace : k + 1 + ids.idxOf row.id = k + (ids.idxOf row.id).succ := by omega
    rw [if_neg he]
    simp only [renumbered, List.mem_cons, he, false_or, List.idxOf_cons_ne _ hne, hplace]

theorem renumber_rows (h : ids.Nodup) :
    (renumber chats (ids.zipIdx k)).rows = chats.rows.map (renumbered ids k) := by
  induction ids generalizing chats k
  case nil =>
    have hsame : renumbered [] k = fun row => row := funext fun row => renumbered_of_not_mem List.not_mem_nil
    rw [hsame, List.map_id']
    rfl
  case cons id ids ih =>
    have ⟨hid, hids⟩ := List.nodup_cons.mp h
    have hstep : renumber chats ((id :: ids).zipIdx k) =
        renumber (chats.update (·.id = id) (·.moved k) (·.moved_id k)) (ids.zipIdx (k + 1)) :=
      rfl
    rw [hstep, ih hids, Table.update_rows, List.map_map]
    apply List.map_congr_left
    intro row _
    rw [← renumbered_cons hid, Function.comp_apply]
    simp only [decide_eq_true_eq]

-- `db` after a reordering.
def Db.renumbered (db : Db) (ids : List String) : Db :=
  { db with chats := renumber db.chats ids.zipIdx }

theorem mem_renumbered (h : ids.Nodup) :
    row ∈ (db.renumbered ids).chats ↔ ∃ old ∈ db.chats, Chats.renumbered ids 0 old = row := by
  rw [Table.mem_def, Db.renumbered, renumber_rows h, List.mem_map]
  rfl

@[simp]
theorem selected_renumbered : selected (db.renumbered ids) options (Chats.renumbered ids k row) =
    selected db options row := by
  simp only [selected, renumbered_toChat]
  rfl

-- A listing shows the same chats after it.
theorem listing_renumbered_perm (db : Db) (options : ChatListOptions) (h : ids.Nodup) :
    ((listing (db.renumbered ids) options).map (·.toChat)).Perm ((listing db options).map (·.toChat)) := by
  have hrows : ((db.renumbered ids).chats.rows.filter (selected (db.renumbered ids) options)).map (·.toChat) =
      (db.chats.rows.filter (selected db options)).map (·.toChat) := by
    have hselected : (selected (db.renumbered ids) options ∘ Chats.renumbered ids 0) = selected db options :=
      funext fun row => selected_renumbered
    have hchat : ((·.toChat) ∘ Chats.renumbered ids 0) = fun row : ChatRow => row.toChat :=
      funext fun row => renumbered_toChat
    have hmap : (db.renumbered ids).chats.rows = db.chats.rows.map (Chats.renumbered ids 0) := renumber_rows h
    rw [hmap, List.filter_map, List.map_map, hselected, hchat]
  have hafter := (listing_perm (db.renumbered ids) options).map (·.toChat)
  have hbefore := (listing_perm db options).map (·.toChat)
  exact hafter.trans (hrows ▸ hbefore.symm)

-- The listing of a scope.
def scope (characterId : Id) : ChatListOptions :=
  { characterId := some characterId.val }

theorem listing_scope : listing db (scope characterId) = ownedRows db characterId := by
  have ⟨id, hid⟩ := characterId
  rw [listing, ownedRows]
  congr 2
  funext row
  simp [selected, scope, hid, Bool.and_comm]

-- A scope whose rows are all renumbered is listed by the numbers.
theorem idxOf_lt (hids : ∀ row ∈ listing db (scope characterId), row.id ∈ ordered) (h : ordered.Nodup)
    (hrow : row ∈ listing (db.renumbered ordered) (scope characterId))
    (hrow' : row' ∈ listing (db.renumbered ordered) (scope characterId))
    (hlt : orderKey .manual row < orderKey .manual row') : ordered.idxOf row.id < ordered.idxOf row'.id := by
  have hnumber (row : ChatRow) (hrow : row ∈ listing (db.renumbered ordered) (scope characterId)) :
      row.id ∈ ordered ∧ row.sortOrder = (ordered.idxOf row.id : Int) + 1 := by
    have ⟨hmem, hselected⟩ := mem_listing.mp hrow
    have ⟨old, hold, he⟩ := (mem_renumbered h).mp hmem
    subst he
    rw [selected_renumbered] at hselected
    have hid : (Chats.renumbered ordered 0 old).id = old.id := congrArg Chat.id renumbered_toChat
    have hordered := hids old <| mem_listing.mpr ⟨hold, hselected⟩
    rw [hid, renumbered_sortOrder hordered, Nat.zero_add]
    exact ⟨hordered, rfl⟩
  have ⟨hmem, hsort⟩ := hnumber row hrow
  have ⟨_, hsort'⟩ := hnumber row' hrow'
  cases orderKey_lt_iff.mp hlt
  case inl h => omega
  case inr h =>
    have hplace : ordered.idxOf row.id = ordered.idxOf row'.id := by
      have := h.left rfl
      omega
    have hid : row.id = row'.id := (List.idxOf_inj hmem).mp hplace
    have he := Table.eq_of_mem_of_key_eq (mem_listing.mp hrow).left (mem_listing.mp hrow').left hid
    exact absurd hlt <| he ▸ lt_irrefl _

-- A scope whose rows have all been renumbered is listed in the order of the numbers.
theorem listing_scope_ids (h : ordered.Nodup)
    (hids : ∀ id, id ∈ ordered ↔ id ∈ (listing db (scope characterId)).map (·.id)) :
    (listing (db.renumbered ordered) (scope characterId)).map (·.id) = ordered := by
  have hsame (id : String) : id ∈ (listing (db.renumbered ordered) (scope characterId)).map (·.id) ↔
      id ∈ (listing db (scope characterId)).map (·.id) := by
    have hperm := (listing_renumbered_perm db (scope characterId) h).map (·.id)
    rw [List.map_map, List.map_map] at hperm
    exact hperm.mem_iff
  have hsorted : ((listing (db.renumbered ordered) (scope characterId)).map (·.id)).Pairwise
      (ordered.idxOf · < ordered.idxOf ·) := by
    have hlt : (listing (db.renumbered ordered) (scope characterId)).Pairwise _ := listing_pairwise
    have hmem (row : ChatRow) (hrow : row ∈ listing db (scope characterId)) : row.id ∈ ordered :=
      (hids row.id).mpr <| List.mem_map_of_mem hrow
    exact List.pairwise_map.mpr <| hlt.imp_of_mem <| idxOf_lt hmem h
  apply Paging.eq_of_ordered hsorted (Lists.idxOf_pairwise h)
  intro id
  rw [hsame, hids]

end Order

section Reorder

variable {db : Db} {characterId : Id} {requested : List String} {row : ChatRow} {id : String}

-- What a request makes of the order of a scope.
def wanted (db : Db) (characterId : Id) (requested : List String) : List String :=
  let owned := (listing db (scope characterId)).map (·.id)
  requested.filter (· ∈ owned) ++ owned.filter (· ∉ requested)

theorem mem_wanted : id ∈ wanted db characterId requested ↔ id ∈ (listing db (scope characterId)).map (·.id) := by
  by_cases h : id ∈ requested <;> simp [wanted, h]

theorem wanted_nodup (h : requested.Nodup) : (wanted db characterId requested).Nodup := by
  apply List.nodup_append.mpr
  apply And.intro <| h.filter _
  apply And.intro <| listing_ids_nodup.filter _
  intro id hid id' hid' he
  have hout := List.mem_filter.mp hid' |>.right
  rw [← he] at hout
  exact absurd (List.mem_filter.mp hid).left <| of_decide_eq_true hout

structure Reordered (db db' : Db) (characterId : Id) (requested : List String) : Prop where
  order   : (listing db' (scope characterId)).map (·.id) = wanted db characterId requested
  chats   : ∀ options, ((listing db' options).map (·.toChat)).Perm ((listing db options).map (·.toChat))
  outside : ∀ row ∈ db.chats, ¬selected db (scope characterId) row → row ∈ db'.chats

theorem reordered_renumbered (h : requested.Nodup) :
    Reordered db (db.renumbered <| wanted db characterId requested) characterId requested where
  order := listing_scope_ids (wanted_nodup h) fun _ => mem_wanted
  chats := fun options => listing_renumbered_perm db options <| wanted_nodup h
  outside := by
    intro row hrow hout
    have hid : row.id ∉ wanted db characterId requested := by
      rw [mem_wanted, List.mem_map]
      intro ⟨row', hrow', he⟩
      have ⟨hmem, hselected⟩ := mem_listing.mp hrow'
      exact hout <| Table.eq_of_mem_of_key_eq hmem hrow he ▸ hselected
    exact (mem_renumbered <| wanted_nodup h).mpr ⟨row, hrow, renumbered_of_not_mem hid⟩

theorem reorder_eq (db : Db) (characterId : Id) (h : requested.Nodup) : ∃ result,
    reorder db characterId requested = .ok (db.renumbered <| wanted db characterId requested, result) := by
  have hwanted : requested.filter (· ∈ (ownedRows db characterId).map (·.id)) ++
      ((ownedRows db characterId).filter fun row =>
        row.id ∉ requested.filter (· ∈ (ownedRows db characterId).map (·.id))).map (·.id) =
      wanted db characterId requested := by
    rw [wanted, ← listing_scope, List.filter_map]
    congr 2
    apply List.filter_congr
    intro row hrow
    have hid : row.id ∈ (listing db (scope characterId)).map (·.id) := List.mem_map_of_mem hrow
    simp only [Function.comp_apply, List.mem_filter, hid, decide_true, and_true]
  simp only [reorder, Lists.eraseDups_of_nodup h, ne_eq, not_true_eq_false, if_false]
  rw [hwanted]
  split
  case isTrue hz =>
    have hnil := List.length_eq_zero_iff.mp hz
    rw [hnil]
    exact ⟨_, rfl⟩
  case isFalse => exact ⟨_, rfl⟩

theorem reorder_duplicates (h : ¬requested.Nodup) :
    reorder db characterId requested = .error "CHAT_REORDER_DUPLICATE_IDS" :=
  if_pos <| Lists.length_eraseDups_eq_iff.not.mpr h

-- A request without duplicates puts what it names first and loses no chat, in whatever pages the chats are
-- listed afterwards; one with duplicates is refused.
theorem reorder_permutes (rt : Runtime) (db : Db) (characterId : Id) (requested : List String) :
    (¬requested.Nodup → reorder db characterId requested = .error "CHAT_REORDER_DUPLICATE_IDS") ∧
    (requested.Nodup → ∃ db' result, reorder db characterId requested = .ok (db', result) ∧
      Reordered db db' characterId requested ∧
      ∀ options n, 0 < n → options.sort.getD .manual = .manual → (∀ row ∈ db'.chats, ReadsBack rt .manual row) →
        ((listing db' options).map (·.id)).Nodup ∧
        ∀ items, Paging.Walk (listPage rt options n) Eq db' none items ↔
          items = (listing db' options).map (listRecord db')) := by
  apply And.intro reorder_duplicates
  intro h
  have ⟨result, hok⟩ := reorder_eq db characterId h
  refine ⟨_, result, hok, reordered_renumbered h, ?_⟩
  intro options n hn hsort hrt
  exact ⟨listing_ids_nodup, listPage_walk_iff hn <| hsort.symm ▸ hrt⟩

-- Two chats of a character, and a runtime that knows their cursors once they have changed places.
def alice : Id :=
  ⟨"alice", by decide⟩

def pair : Db where
  chats := {
    rows := [
      { id := "a", characterId := some "alice", title := "First", createdAt := 0, updatedAt := 10, sortOrder := 1 },
      { id := "b", characterId := some "alice", title := "Second", createdAt := 0, updatedAt := 10, sortOrder := 2 }],
    nodup := by decide
  }
  characters := { rows := [{ id := "alice", name := "Alice", avatar := none }], nodup := by decide }

def memberText : String × Json → String
  | (key, .number n) => "\"" ++ key ++ "\":" ++ toString n.num
  | (key, .string s) => "\"" ++ key ++ "\":\"" ++ s ++ "\""
  | _                => ""

def pairRuntime : Runtime where
  stringify
    | .object members => "\x7b" ++ ",".intercalate (members.map memberText) ++ "\x7d"
    | _               => ""
  parse text :=
    if text = "\x7b\"o\":1,\"c\":10,\"i\":\"b\"\x7d" then
      some <| .object [("o", .number 1), ("c", .number 10), ("i", .string "b")]
    else if text = "\x7b\"o\":2,\"c\":10,\"i\":\"a\"\x7d" then
      some <| .object [("o", .number 2), ("c", .number 10), ("i", .string "a")]
    else
      none
  toBase64Url text := .ofList <| Base64.encode <| text.toList.map fun c => .ofNat c.toNat
  ofBase64Url text := .ofList <| (Base64.decode text.toList).getD [] |>.map fun b => .ofNat b.toNat

theorem pairRuntime_readsBack (h : row ∈ (pair.renumbered ["b", "a"]).chats) :
    ReadsBack pairRuntime .manual row := by
  have hrows : (pair.renumbered ["b", "a"]).chats.rows = [
      { id := "a", characterId := some alice.val, title := "First", createdAt := 0, updatedAt := 10, sortOrder := 2 },
      { id := "b", characterId := some alice.val, title := "Second", createdAt := 0, updatedAt := 10, sortOrder := 1 }
    ] := by
    decide +kernel
  have hfirst : encodeCursor pairRuntime [("o", .number 2), ("c", .number 10), ("i", .string "a")] =
      "eyJvIjoyLCJjIjoxMCwiaSI6ImEifQ" := by
    decide +kernel
  have hsecond : encodeCursor pairRuntime [("o", .number 1), ("c", .number 10), ("i", .string "b")] =
      "eyJvIjoxLCJjIjoxMCwiaSI6ImIifQ" := by
    decide +kernel
  have hfirstText : pairRuntime.ofBase64Url "eyJvIjoyLCJjIjoxMCwiaSI6ImEifQ" =
      "\x7b\"o\":2,\"c\":10,\"i\":\"a\"\x7d" := by
    decide +kernel
  have hsecondText : pairRuntime.ofBase64Url "eyJvIjoxLCJjIjoxMCwiaSI6ImIifQ" =
      "\x7b\"o\":1,\"c\":10,\"i\":\"b\"\x7d" := by
    decide +kernel
  rw [Table.mem_def, hrows, List.mem_cons, List.mem_singleton] at h
  cases h
  case inl h =>
    subst h
    simp only [ReadsBack, cursorValue, Int.cast_ofNat, hfirst, decodeCursor, hfirstText]
    simp [pairRuntime]
  case inr h =>
    subst h
    simp only [ReadsBack, cursorValue, Int.cast_ofNat, Int.cast_one, hsecond, decodeCursor, hsecondText]
    simp [pairRuntime]

-- With the second chat first, pages of one chat show both.
theorem pair_second_first : ∃ db' result, reorder pair alice ["b"] = .ok (db', result) ∧
    Reordered pair db' alice ["b"] ∧
    ∀ items, Paging.Walk (listPage pairRuntime (scope alice) 1) Eq db' none items ↔
      items = (listing db' (scope alice)).map (listRecord db') := by
  have ⟨db', result, hok, hreordered, hwalk⟩ := (reorder_permutes pairRuntime pair alice ["b"]).right (by decide)
  have ⟨_, hok'⟩ := reorder_eq pair alice (List.nodup_singleton "b")
  have hdb : db' = pair.renumbered ["b", "a"] := by
    have hwanted : wanted pair alice ["b"] = ["b", "a"] := by decide +kernel
    rw [hok, hwanted, Except.ok.injEq, Prod.mk.injEq] at hok'
    exact hok'.left
  have hrt (row : ChatRow) (h : row ∈ db'.chats) : ReadsBack pairRuntime .manual row :=
    pairRuntime_readsBack (by rwa [hdb] at h)
  exact ⟨db', result, hok, hreordered, (hwalk (scope alice) 1 Nat.one_pos rfl hrt).right⟩

-- A request that names a chat twice leaves the order as it is.
theorem pair_duplicates : reorder pair alice ["b", "b"] = .error "CHAT_REORDER_DUPLICATE_IDS" ∧
    (listing pair (scope alice)).map (·.id) = ["a", "b"] := by
  constructor
  case left  => exact reorder_duplicates (by decide)
  case right => decide +kernel

example : (listing pair (scope alice)).length = 2 := by
  decide +kernel

end Reorder

end Repositories.Chats
