import Mathlib
import NeoTavern.Kernel.Generation
import NeoTavern.Lib.Base64
import NeoTavern.Lib.Paging
import NeoTavern.Wire.Dto

namespace Kernel

open Wire Storage

def malformedCursor : KernelError where
  code    := .contractViolation
  message := "malformed cursor"

-- `split_once`: what stands before the first `c` and what stands after it.
def splitOnce (c : Char) (text : String) : Option (String × String) :=
  match text.toList.dropWhile (· ≠ c) with
  | []        => none
  | _ :: rest => some (.ofList <| text.toList.takeWhile (· ≠ c), .ofList rest)

def encodeParts (parts : List String) : String :=
  .ofList <| Base64.encode ("|".intercalate parts).toUTF8.data.toList

def encodeCursor (createdAt id : String) : String :=
  encodeParts [createdAt, id]

def decodeCursorText (cursor : String) : Except KernelError String :=
  match Base64.decode cursor.toList with
  | none       => .error malformedCursor
  | some bytes =>
    match String.fromUTF8? ⟨bytes.toArray⟩ with
    | none      => .error malformedCursor
    | some text => .ok text

def decodeCursor (cursor : String) : Except KernelError (String × String) := do
  let text ← decodeCursorText cursor
  match splitOnce '|' text with
  | some (createdAt, id) =>
    if createdAt ≠ "" ∧ id ≠ "" then .ok (createdAt, id) else .error malformedCursor
  | none => .error malformedCursor

-- The answer to a request that reads only: the request is decoded, `read` makes a page of it, and
-- the page is checked against its wire form.
def answer {ρ α : Type} (checkRequest : ρ → String → List Issue) (check : α → String → List Issue)
    (request : Payload ρ) (read : ρ → Except KernelError α) : Except KernelError α := do
  let req ← (decode checkRequest request).mapError .ofWire
  let page ← read req
  match check page "" with
  | []     => return page
  | issues => .error {
      code    := .contractViolation
      message := "response dto failed wire validation"
      issues
    }

theorem answer_eq_ok_iff {ρ α : Type} {checkRequest : ρ → String → List Issue}
    {check : α → String → List Issue} {read : ρ → Except KernelError α} {req : ρ} {page : α} :
    answer checkRequest check (.object req) read = .ok page ↔
    checkRequest req "" = [] ∧ read req = .ok page ∧ check page "" = [] := by
  cases hr : checkRequest req ""
  case cons => simp [answer, decode, hr, Except.mapError, bind, Except.bind]
  case nil =>
    cases hread : read req
    case error => simp [answer, decode, hr, Except.mapError, bind, Except.bind, hread]
    case ok p =>
      cases hc : check p "" <;>
        simp [answer, decode, hr, Except.mapError, bind, Except.bind, hread, hc, pure, Except.pure]
      case nil => rintro rfl; exact hc
      case cons => rintro rfl; simp [hc]

theorem pageLimit_some {limit : Nat} (hl : 1 ≤ limit) (hu : limit ≤ 200) :
    pageLimit (some (limit : Int)) = limit := by
  simp only [pageLimit, Option.getD_some]
  omega

-- The length that the wire allows a cursor.
def Fits (cursor : String) : Prop :=
  1 ≤ utf16Length cursor ∧ utf16Length cursor ≤ 256

section RoundTrip

theorem splitOnce_intercalate (h : '|' ∉ s.toList) :
    splitOnce '|' ("|".intercalate [s, t]) = some (s, t) := by
  have hall : ∀ x ∈ s.toList, decide (x ≠ '|') = true := fun x hx =>
    decide_eq_true fun he => h <| he ▸ hx
  have htext : ("|".intercalate [s, t]).toList = s.toList ++ '|' :: t.toList := by
    simp [String.intercalate_cons_cons]
  rw [splitOnce, htext, List.dropWhile_append_of_pos hall, List.takeWhile_append_of_pos hall]
  simp

theorem decodeCursorText_encodeParts (parts : List String) :
    decodeCursorText (encodeParts parts) = .ok ("|".intercalate parts) := by
  have hutf (s : String) : String.fromUTF8? ⟨s.toUTF8.data.toList.toArray⟩ = some s := by
    simp [String.fromUTF8?, String.fromUTF8, s.isValidUTF8]
  simp only [decodeCursorText, encodeParts, String.toList_ofList, Base64.decode_encode, hutf]

theorem decodeCursor_encodeCursor {createdAt id : String} (h : '|' ∉ createdAt.toList)
    (hc : createdAt ≠ "") (hi : id ≠ "") :
    decodeCursor (encodeCursor createdAt id) = .ok (createdAt, id) := by
  simp only [decodeCursor, encodeCursor, decodeCursorText_encodeParts, bind, Except.bind,
    splitOnce_intercalate h]
  exact if_pos ⟨hc, hi⟩

theorem utf16Length_encodeParts (parts : List String) :
    utf16Length (encodeParts parts) = (4 * ("|".intercalate parts).utf8ByteSize + 2) / 3 := by
  have hone (cs : List Char) (h : ∀ c ∈ cs, c.val < 0x10000) :
      (cs.map fun c => if c.val < 0x10000 then 1 else 2).sum = cs.length := by
    rw [List.map_congr_left fun c hc => if_pos (h c hc)]
    simp
  rw [utf16Length, encodeParts, String.toList_ofList, hone _ fun _ => Base64.encode_ascii,
    Base64.length_encode]
  rfl

theorem mem_of_matchPrefix {ps : List (Char → Bool)} (h : matchPrefix ps cs = some rest)
    (hp : ∀ p ∈ ps, p c = false) (hc : c ∈ cs) : c ∈ rest := by
  induction ps generalizing cs
  case nil =>
    cases h
    exact hc
  case cons p ps ih =>
    have ⟨hpc, hps⟩ := List.forall_mem_cons.mp hp
    cases cs
    case nil => cases h
    case cons x cs =>
      simp only [matchPrefix] at h
      split at h
      case isFalse => cases h
      case isTrue hx =>
        cases List.mem_cons.mp hc
        case inl he => exact absurd (he ▸ hx) <| by simp [hpc]
        case inr hc => exact ih h hps hc

theorem not_mem_of_isZone (h : isZone cs) : '|' ∉ cs := by
  intro hc
  simp only [isZone, Bool.or_eq_true, beq_iff_eq] at h
  cases h
  case inl h => exact absurd (h ▸ hc) <| by decide
  case inr h => exact absurd (mem_of_matchPrefix h (by decide +kernel) hc) List.not_mem_nil

theorem not_mem_of_isDateTime (h : isDateTime s) : '|' ∉ s.toList := by
  intro hc
  simp only [isDateTime, Option.any_eq_true] at h
  obtain ⟨rest, hrest, hz⟩ := h
  have hmem := mem_of_matchPrefix hrest (by decide +kernel) hc
  unfold isFractionAndZone at hz
  split at hz
  case h_2 => exact not_mem_of_isZone hz hmem
  case h_1 cs =>
    rw [Bool.and_eq_true] at hz
    apply not_mem_of_isZone hz.right
    have hcs : '|' ∈ cs := by
      cases List.mem_cons.mp hmem
      case inl he  => cases he
      case inr hcs => exact hcs
    rw [← List.takeWhile_append_dropWhile (p := isDecimalDigit) (l := cs)] at hcs
    cases List.mem_append.mp hcs
    case inl hd => exact absurd (List.mem_takeWhile_imp hd) <| by decide +kernel
    case inr hd => exact hd

theorem ne_empty_of_isDateTime (h : isDateTime s) : s ≠ "" := by
  rintro rfl
  cases h

theorem ne_empty_of_isUuid (h : isUuid s) : s ≠ "" := by
  rintro rfl
  cases h

end RoundTrip

end Kernel

namespace Kernel

open Wire Storage Paging

section Model

-- A row of `chats LEFT JOIN (SELECT chat_id, COUNT(*) …)`, as it is sent.
def rowToChat (db : Db) (c : ChatRow) : ChatDto where
  id           := c.id
  title        := c.title
  characterId  := c.characterId
  messageCount := (db.messages.rows.filter (·.chatId = c.id)).length
  createdAt    := c.createdAt
  updatedAt    := c.updatedAt

def chatRows (db : Db) : List ChatDto :=
  db.chats.rows.map (rowToChat db)

-- The text of a `WHERE` condition. An operand is a comparison or stands in parentheses.
inductive Token (ρ : Type)
  | operand (p : ρ → Bool)
  | and
  | or

-- `AND` binds tighter than `OR`. `conj` is the value of the conjunction so far.
def holds (row : ρ) (conj : Bool) : List (Token ρ) → Bool
  | []                   => conj
  | .operand p :: tokens => holds row (conj && p row) tokens
  | .and       :: tokens => holds row conj tokens
  | .or        :: tokens => conj || holds row true tokens

def characterClause (characterId : String) : List (Token ChatDto) :=
  [.operand fun c => c.characterId = characterId]

def cursorClause (createdAt id : String) : List (Token ChatDto) := [
  .operand fun c => c.createdAt < createdAt,
  .or,
  .operand fun c => c.createdAt = createdAt && c.id < id
]

def whereClauses (characterId : Option String) (after : Option (String × String)) :
    List (List (Token ChatDto)) :=
  (characterId.map characterClause).toList ++ (after.map fun a => cursorClause a.fst a.snd).toList

-- Without a clause there is no `WHERE`, and every row is selected.
def chatSelected (characterId : Option String) (after : Option (String × String)) (c : ChatDto) :
    Bool :=
  holds c true <| [.and].intercalate <| whereClauses characterId after

-- `ORDER BY c.created_at DESC, c.id DESC`.
def chatKey (c : ChatDto) : (String ×ₗ String)ᵒᵈ :=
  .toDual <| toLex (c.createdAt, c.id)

def selectChats (db : Db) (characterId : Option String) (after : Option (String × String)) :
    List ChatDto :=
  orderBy chatKey <| (chatRows db).filter <| chatSelected characterId after

def chatCursor (c : ChatDto) : String :=
  encodeCursor c.createdAt c.id

def chatsList (db : Db) (request : Payload RequestListChats) : Except KernelError PagedChats :=
  answer checkRequestListChats checkPagedChats request fun req => do
    let limit := pageLimit req.limit
    let after ← req.cursor.mapM decodeCursor
    -- One row past the page tells whether there is more.
    let rows := (selectChats db req.characterId after).take (limit + 1)
    return {
      items      := rows.take limit
      nextCursor := if limit < rows.length then rows[limit - 1]?.map chatCursor else none
    }

end Model

section Walks

variable {db : Db} {characterId : Option String} {limit : Nat} {cursor : Option String}

-- What a client asks for that lists the chats of `characterId` in pages of `limit`.
def chatsPage (characterId : Option String) (limit : Nat) (db : Db) (cursor : Option String) :
    Except KernelError (Page ChatDto String) :=
  (chatsList db <| .object ⟨characterId, cursor, some limit⟩).map fun p => ⟨p.items, p.nextCursor⟩

def matchesFilter (characterId : Option String) (c : ChatDto) : Bool :=
  characterId.all (c.characterId = ·)

-- The chat that stands before another in the order of the list.
def Before (c c' : ChatDto) : Prop :=
  c'.createdAt < c.createdAt ∨ c'.createdAt = c.createdAt ∧ c'.id < c.id

structure ExactChats (db : Db) (characterId : Option String) (items : List ChatDto) : Prop where
  ordered : items.Pairwise Before
  mem_iff : ∀ c, c ∈ items ↔ c ∈ chatRows db ∧ matchesFilter characterId c

theorem chatKey_lt_iff : chatKey c < chatKey c' ↔ Before c c' := by
  rw [chatKey, chatKey, OrderDual.toDual_lt_toDual, Prod.Lex.toLex_lt_toLex, Before]

theorem chatSelected_none : chatSelected characterId none c ↔ matchesFilter characterId c := by
  cases characterId <;>
    simp [chatSelected, whereClauses, characterClause, holds, matchesFilter]

theorem chatSelected_some : chatSelected characterId (some (t, i)) c ↔
    (matchesFilter characterId c ∧ c.createdAt < t) ∨ (c.createdAt = t ∧ c.id < i) := by
  cases characterId <;>
    simp [chatSelected, whereClauses, characterClause, cursorClause, holds, matchesFilter,
      List.intercalate]

theorem chatRows_keys : (chatRows db).Pairwise (chatKey · ≠ chatKey ·) := by
  have hids : (chatRows db).Pairwise (·.id ≠ ·.id) := by
    have h := db.chats.nodup
    rw [chatRows, List.pairwise_map]
    exact List.pairwise_map.mp h
  apply hids.imp
  intro c c' hne he
  exact hne <| congrArg (fun k => (ofLex (OrderDual.ofDual k)).snd) he

theorem selectChats_ordered : (selectChats db characterId after).Pairwise (chatKey · < chatKey ·) :=
  orderBy_pairwise <| chatRows_keys.filter _

theorem mem_selectChats :
    c ∈ selectChats db characterId after ↔ c ∈ chatRows db ∧ chatSelected characterId after c := by
  rw [selectChats, mem_orderBy, List.mem_filter]

-- The chats that the walk is to yield.
def chatsOf (db : Db) (characterId : Option String) : List ChatDto :=
  orderBy chatKey <| (chatRows db).filter <| matchesFilter characterId

theorem mem_chatsOf : c ∈ chatsOf db characterId ↔ c ∈ chatRows db ∧ matchesFilter characterId c := by
  rw [chatsOf, mem_orderBy, List.mem_filter]

theorem chatsOf_ordered : (chatsOf db characterId).Pairwise (chatKey · < chatKey ·) :=
  orderBy_pairwise <| chatRows_keys.filter _

theorem selectChats_none : selectChats db characterId none = chatsOf db characterId :=
  orderBy_filter_eq chatRows_keys chatsOf_ordered fun _ => by rw [mem_chatsOf, chatSelected_none]

theorem chatsOf_exact : ExactChats db characterId (chatsOf db characterId) where
  ordered := chatsOf_ordered.imp chatKey_lt_iff.mp
  mem_iff := fun _ => mem_chatsOf

theorem ExactChats.eq (h : ExactChats db characterId items) : items = chatsOf db characterId :=
  eq_of_ordered (h.ordered.imp chatKey_lt_iff.mpr) chatsOf_ordered fun c =>
    (h.mem_iff c).trans mem_chatsOf.symm

-- A chat of another character that the condition of the next page lets in.
def Strays (db : Db) (characterId : Option String) (c : ChatDto) : Prop :=
  ∃ o ∈ chatRows db, ¬matchesFilter characterId o ∧ o.createdAt = c.createdAt ∧ o.id < c.id

theorem rest_eq (h : done ++ pre ++ b :: post = chatsOf db characterId)
    (hs : ¬Strays db characterId b) :
    selectChats db characterId (some (b.createdAt, b.id)) = post := by
  have hsorted : (chatsOf db characterId).Pairwise (chatKey · < chatKey ·) := chatsOf_ordered
  rw [← h] at hsorted
  have hpost := (List.pairwise_append.mp hsorted).right.left.of_cons
  apply orderBy_filter_eq chatRows_keys hpost
  intro c
  rw [mem_rest_iff hsorted, h, mem_chatsOf, chatKey_lt_iff, chatSelected_some, Before]
  constructor
  case mp =>
    rintro ⟨⟨hc, hm⟩, hlt⟩
    exact ⟨hc, hlt.imp (⟨hm, ·⟩) id⟩
  case mpr =>
    rintro ⟨hc, ⟨hm, hlt⟩ | htie⟩
    · exact ⟨⟨hc, hm⟩, .inl hlt⟩
    · by_cases hm : matchesFilter characterId c
      · exact ⟨⟨hc, hm⟩, .inr htie⟩
      · exact absurd ⟨c, hc, hm, htie⟩ hs

theorem chatCursor_pos : 1 ≤ utf16Length (chatCursor c) := by
  have hbar : 0 < ("|".intercalate [c.createdAt, c.id]).utf8ByteSize := by
    rw [String.intercalate_cons_cons, String.utf8ByteSize_append, String.utf8ByteSize_append]
    have : "|".utf8ByteSize = 1 := rfl
    omega
  rw [chatCursor, encodeCursor, utf16Length_encodeParts]
  omega

theorem decode_chatCursor (h : checkChatDto c "" = []) :
    decodeCursor (chatCursor c) = .ok (c.createdAt, c.id) := by
  simp only [checkChatDto, List.append_eq_nil_iff, checkFormat_eq_nil_iff] at h
  obtain ⟨⟨⟨⟨⟨hi, _⟩, _⟩, _⟩, hc⟩, _⟩ := h
  exact decodeCursor_encodeCursor (not_mem_of_isDateTime hc) (ne_empty_of_isDateTime hc)
    (ne_empty_of_isUuid hi)

-- What the query of a request with this cursor selects, page limit aside.
def chatsWindow (characterId : Option String) (db : Db) (cursor : Option String) : List ChatDto :=
  match cursor.mapM decodeCursor with
  | .ok after => selectChats db characterId after
  | .error _  => []

theorem chatsWindow_none : chatsWindow characterId db none = chatsOf db characterId :=
  selectChats_none

theorem chatsWindow_some (h : checkChatDto c "" = []) :
    chatsWindow characterId db (some <| chatCursor c) =
    selectChats db characterId (some (c.createdAt, c.id)) := by
  simp [chatsWindow, decode_chatCursor h]

theorem chatsPage_eq_ok_iff (hl : 1 ≤ limit) (hu : limit ≤ 200) :
    chatsPage characterId limit db cursor = .ok p ↔
    (∀ i ∈ characterId, isUuid i) ∧ (∀ k ∈ cursor, Fits k) ∧
    (∃ after, cursor.mapM decodeCursor = .ok after) ∧
    p = cut limit chatCursor (chatsWindow characterId db cursor) ∧
    (∀ c ∈ p.items, checkChatDto c "" = []) ∧ ∀ k ∈ p.next, Fits k := by
  have hrange : (1 : Int) ≤ limit ∧ (limit : Int) ≤ 200 := by omega
  obtain ⟨items, next⟩ := p
  have hok : chatsPage characterId limit db cursor = .ok ⟨items, next⟩ ↔
      chatsList db (.object ⟨characterId, cursor, some limit⟩) = .ok ⟨items, next⟩ := by
    cases h : chatsList db (.object ⟨characterId, cursor, some limit⟩) <;>
      simp [chatsPage, h, Except.map]
    case ok a =>
      obtain ⟨items', next'⟩ := a
      rw [PagedChats.mk.injEq]
  rw [hok, chatsList, answer_eq_ok_iff, checkRequestListChats_eq_nil_iff, checkPagedChats_eq_nil_iff]
  cases ha : cursor.mapM decodeCursor
  case error => simp [bind, Except.bind]
  case ok after =>
    have hcut := cut_take (n := limit) (f := chatCursor) (l := selectChats db characterId after)
    have hwindow : chatsWindow characterId db cursor = selectChats db characterId after := by
      rw [chatsWindow, ha]
    rw [hwindow, ← hcut]
    simp [bind, Except.bind, pure, Except.pure, pageLimit_some hl hu, cut, Fits, hrange, and_assoc]
    intro _ _
    rw [eq_comm (a := items), eq_comm (a := next)]

theorem chatsPage_of_select (after : Option ChatDto) (l : List ChatDto) (hl : 1 ≤ limit) (hu : limit ≤ 200)
    (hf : ∀ i ∈ characterId, isUuid i) (ha : ∀ c ∈ after, c ∈ chatRows db)
    (hv : ∀ c ∈ chatRows db, checkChatDto c "" = [] ∧ utf16Length (chatCursor c) ≤ 256)
    (hs : selectChats db characterId (after.map fun c => (c.createdAt, c.id)) = l) :
    chatsPage characterId limit db (after.map chatCursor) = .ok (cut limit chatCursor l) := by
  have hw : chatsWindow characterId db (after.map chatCursor) = l := by
    cases after
    case none   => exact chatsWindow_none.trans <| selectChats_none.symm.trans hs
    case some c => exact (chatsWindow_some (hv c <| ha c rfl).left).trans hs
  have hrows : ∀ c ∈ l, c ∈ chatRows db := fun c hc => (mem_selectChats.mp <| hs ▸ hc).left
  apply (chatsPage_eq_ok_iff hl hu).mpr
  refine ⟨hf, ?_, ?_, by rw [hw], fun c hc => (hv c <| hrows c <| mem_of_cut hc).left, fun k hk => ?_⟩
  · intro k hk
    obtain ⟨c, hc, rfl⟩ := Option.mem_map.mp hk
    exact ⟨chatCursor_pos, (hv c <| ha c hc).right⟩
  · cases after
    case none   => exact ⟨none, rfl⟩
    case some c => exact ⟨some (c.createdAt, c.id), by simp [decode_chatCursor (hv c <| ha c rfl).left]⟩
  · obtain ⟨c, hc, rfl⟩ := boundary_of_cut hl hk
    exact ⟨chatCursor_pos, (hv c <| hrows c hc.mem).right⟩

theorem chatsPage_serves (hl : 1 ≤ limit) (hu : limit ≤ 200) :
    Serves (chatsPage characterId limit) (chatsWindow characterId) limit chatCursor :=
  fun _ _ _ h => ((chatsPage_eq_ok_iff hl hu).mp h).right.right.right.left

-- What a page leaves over of a window is in the next one, whosever chats they are.
theorem mem_next_window (h : chatsWindow characterId db cursor = pre ++ b :: post)
    (hb : checkChatDto b "" = []) (hx : x ∈ post) :
    x ∈ chatsWindow characterId db (some <| chatCursor b) := by
  rw [chatsWindow] at h
  split at h
  case h_2 => exact absurd (congrArg List.length h) <| by simp
  case h_1 after _ =>
    have hsorted : (selectChats db characterId after).Pairwise (chatKey · < chatKey ·) := selectChats_ordered
    rw [h] at hsorted
    have ⟨hmem, hlt⟩ := (mem_rest_iff hsorted).mp hx
    have hbmem : b ∈ pre ++ b :: post := List.mem_append_right _ List.mem_cons_self
    rw [← h, mem_selectChats] at hmem hbmem
    rw [chatKey_lt_iff, Before] at hlt
    rw [chatsWindow_some hb, mem_selectChats, chatSelected_some]
    apply And.intro hmem.left
    cases hlt
    case inr htie => exact .inr htie
    case inl hlt =>
      apply Or.inl (And.intro _ hlt)
      cases after
      case none => exact chatSelected_none.mp hmem.right
      case some a _ =>
        cases chatSelected_some.mp hmem.right
        case inl hm => exact hm.left
        case inr htie =>
          -- A chat tied with the cursor comes before every older one.
          have hbt := chatSelected_some.mp hbmem.right
          have hle : b.createdAt ≤ a.fst := hbt.elim (·.right.le) (·.left.le)
          exact absurd (htie.left ▸ hle) hlt.not_ge

-- A client that follows the cursors while nothing is written, and the items it gets.
abbrev ChatsWalk (characterId : Option String) (limit : Nat) :
    Db → Option String → List ChatDto → Prop :=
  Walk (chatsPage characterId limit) (· = ·)

-- Where the listing is exact: the wire takes the filter, every chat and the cursor of the last chat
-- of each page that is not the last one, and no chat of another character strays into a later page.
structure Walkable (db : Db) (characterId : Option String) (limit : Nat) : Prop where
  filter  : ∀ i ∈ characterId, isUuid i
  chats   : ∀ c ∈ chatsOf db characterId, checkChatDto c "" = []
  cursors : ∀ c, Boundary limit (chatsOf db characterId) c → utf16Length (chatCursor c) ≤ 256
  untied  : ∀ c, Boundary limit (chatsOf db characterId) c → ¬Strays db characterId c

theorem walk_of_walkable (hl : 1 ≤ limit) (hu : limit ≤ 200) (h : Walkable db characterId limit) :
    ChatsWalk characterId limit db none (chatsOf db characterId) := by
  apply walk_of_windows (n := limit) (f := chatCursor) (P := fun k l =>
    (∀ c ∈ k, Fits c) ∧ (∃ after, k.mapM decodeCursor = .ok after) ∧
    chatsWindow characterId db k = l ∧ (∃ done, done ++ l = chatsOf db characterId) ∧
    ∀ c, Boundary limit l c → Boundary limit (chatsOf db characterId) c) hl rfl
  case hpage =>
    intro k l ⟨hfits, hdecoded, hl', ⟨done, hdone⟩, hboundary⟩
    apply (chatsPage_eq_ok_iff hl hu).mpr
    refine ⟨h.filter, hfits, hdecoded, by rw [hl'], ?_, ?_⟩
    · intro c hc
      apply h.chats c
      rw [← hdone]
      exact List.mem_append_right _ <| List.mem_of_mem_take hc
    · intro k' hk'
      obtain ⟨b, hb, rfl⟩ := boundary_of_cut hl hk'
      exact ⟨chatCursor_pos, h.cursors b <| hboundary b <| hl' ▸ hb⟩
  case hnext =>
    intro k pre b post ⟨_, _, _, ⟨done, hdone⟩, hboundary⟩ hlen hp
    have hb := hboundary b <| .first hlen hp
    rw [← List.append_assoc] at hdone
    have hvalid := h.chats b <| by
      rw [← hdone]
      exact List.mem_append_right _ List.mem_cons_self
    refine ⟨?_, ⟨some (b.createdAt, b.id), by simp [decode_chatCursor hvalid]⟩, ?_, ?_, ?_⟩
    · rintro _ ⟨⟩
      exact ⟨chatCursor_pos, h.cursors b hb⟩
    · rw [chatsWindow_some hvalid, rest_eq hdone <| h.untied b hb]
    · exact ⟨done ++ pre ++ [b], by rw [← hdone]; simp⟩
    · exact fun c hc => hboundary c <| hc.rest hlen
  case h => exact ⟨nofun, ⟨none, rfl⟩, chatsWindow_none, ⟨[], rfl⟩, fun _ => id⟩

theorem valid_of_page (hl : 1 ≤ limit) (hu : limit ≤ 200)
    (h : chatsPage characterId limit db cursor = .ok p) : ∀ c ∈ p.items, checkChatDto c "" = [] :=
  ((chatsPage_eq_ok_iff hl hu).mp h).right.right.right.right.left

theorem ChatsWalk.covers (hl : 1 ≤ limit) (hu : limit ≤ 200)
    (w : ChatsWalk characterId limit db cursor items) :
    ∀ c ∈ chatsWindow characterId db cursor, c ∈ items := by
  apply Walk.covers hl (chatsPage_serves hl hu) _ w
  intro s _ k pre b post hw hpage hs x hx
  have hb := valid_of_page hl hu hpage b <| List.mem_append_right _ List.mem_cons_self
  exact hs ▸ mem_next_window hw hb hx

-- A chat that strays into a page is served.
theorem ChatsWalk.not_strays (hl : 1 ≤ limit) (hu : limit ≤ 200)
    (w : ChatsWalk characterId limit db (some <| chatCursor b) items)
    (hb : checkChatDto b "" = []) (hm : ∀ c ∈ items, matchesFilter characterId c) :
    ¬Strays db characterId b := by
  rintro ⟨o, ho, hno, htie⟩
  apply hno
  apply hm
  apply w.covers hl hu
  rw [chatsWindow_some hb, mem_selectChats]
  exact ⟨ho, chatSelected_some.mpr <| .inr htie⟩

theorem ChatsWalk.boundaries (hl : 1 ≤ limit) (hu : limit ≤ 200)
    (w : ChatsWalk characterId limit db cursor items) (hm : ∀ c ∈ items, matchesFilter characterId c)
    (hdone : done ++ chatsWindow characterId db cursor = chatsOf db characterId) :
    ∀ b, Boundary limit (chatsWindow characterId db cursor) b →
      utf16Length (chatCursor b) ≤ 256 ∧ ¬Strays db characterId b := by
  have hrule := w.rule (motive := fun db k items => (∀ c ∈ items, matchesFilter characterId c) →
    ∀ done, done ++ chatsWindow characterId db k = chatsOf db characterId →
    ∀ b, Boundary limit (chatsWindow characterId db k) b →
      utf16Length (chatCursor b) ≤ 256 ∧ ¬Strays db characterId b) hl <| chatsPage_serves hl hu
  apply hrule ?last ?more hm _ hdone
  case last => exact fun _ _ hle _ _ _ _ _ hb => absurd hb <| not_boundary hle
  case more =>
    rintro db _ k pre b post items hw hlen - hpage rfl rest ih hm done hdone b' hb'
    have hok := (chatsPage_eq_ok_iff hl hu).mp hpage
    have hvalid := valid_of_page hl hu hpage b <| List.mem_append_right _ List.mem_cons_self
    have hfits := hok.right.right.right.right.right _ rfl
    have hitems : ∀ c ∈ items, matchesFilter characterId c := fun c hc =>
      hm c <| List.mem_append_right _ <| List.mem_cons_of_mem _ hc
    have hb := ChatsWalk.not_strays hl hu rest hvalid hitems
    rw [hw, ← List.append_assoc] at hdone
    have hpost : chatsWindow characterId db (some <| chatCursor b) = post := by
      rw [chatsWindow_some hvalid, rest_eq hdone hb]
    rw [hw] at hb'
    cases hb'.split hlen
    case inl he => exact he ▸ ⟨hfits.right, hb⟩
    case inr hb' =>
      apply ih hitems (done ++ pre ++ [b])
      · rw [hpost, ← hdone]
        simp
      · exact hpost ▸ hb'

theorem ChatsWalk.walkable (hl : 1 ≤ limit) (hu : limit ≤ 200)
    (w : ChatsWalk characterId limit db none items) (h : ExactChats db characterId items) :
    Walkable db characterId limit := by
  have hm : ∀ c ∈ items, matchesFilter characterId c := fun c hc => ((h.mem_iff c).mp hc).right
  have hstart : [] ++ chatsWindow characterId db none = chatsOf db characterId := chatsWindow_none
  have hboundaries := w.boundaries hl hu hm hstart
  rw [chatsWindow_none] at hboundaries
  constructor
  case filter =>
    have ⟨_, hp⟩ := w.first
    exact ((chatsPage_eq_ok_iff hl hu).mp hp).left
  case chats   => exact h.eq ▸ w.forall fun _ _ _ => valid_of_page hl hu
  case cursors => exact fun b hb => (hboundaries b hb).left
  case untied  => exact fun b hb => (hboundaries b hb).right

theorem chats_walk_exact_iff (hl : 1 ≤ limit) (hu : limit ≤ 200) :
    (∃ items, ChatsWalk characterId limit db none items ∧
      ExactChats db characterId items) ↔
    Walkable db characterId limit := by
  constructor
  case mp  => exact fun ⟨_, w, h⟩ => w.walkable hl hu h
  case mpr => exact fun h => ⟨_, walk_of_walkable hl hu h, chatsOf_exact⟩

namespace Sample

def alice : String := "a0000000-0000-4000-8000-000000000000"
def bob   : String := "b0000000-0000-4000-8000-000000000000"

def chat (id characterId createdAt : String) : ChatRow where
  id          := id
  title       := "chat"
  characterId := characterId
  createdAt   := createdAt
  updatedAt   := createdAt

def older   : ChatRow := chat "10000000-0000-4000-8000-000000000001" alice "2026-01-01T00:00:01Z"
def another : ChatRow := chat "10000000-0000-4000-8000-000000000002" bob "2026-01-01T00:00:02Z"
def newer   : ChatRow := chat "10000000-0000-4000-8000-000000000003" alice "2026-01-01T00:00:02Z"

-- A chat of the other character was made in the same second as the newer one.
def chats : Db where
  characters := .empty
  chats      := ⟨[older, another, newer], by decide⟩
  messages   := .empty
  runs       := .empty
  events     := .empty

theorem chats_valid : ∀ c ∈ chatRows chats, checkChatDto c "" = [] ∧ utf16Length (chatCursor c) ≤ 256 := by
  simp only [chatCursor, encodeCursor, utf16Length_encodeParts]
  decide +kernel

end Sample

theorem chats_walk_exact_all :
    ∃ items, ChatsWalk none 1 Sample.chats none items ∧ ExactChats Sample.chats none items := by
  have hvalid (c : ChatDto) (hc : c ∈ chatsOf Sample.chats none) := Sample.chats_valid c (mem_chatsOf.mp hc).left
  apply (chats_walk_exact_iff (by decide) (by decide)).mpr
  constructor
  case filter  => exact nofun
  case chats   => exact fun c hc => (hvalid c hc).left
  case cursors => exact fun c hc => (hvalid c hc.mem).right
  case untied  => exact fun _ _ ⟨_, _, hno, _⟩ => hno rfl

theorem chats_walk_strays :
    ChatsWalk (some Sample.alice) 1 Sample.chats none
      (([Sample.newer, Sample.another, Sample.older]).map (rowToChat Sample.chats)) ∧
    ¬∃ items, ChatsWalk (some Sample.alice) 1 Sample.chats none items ∧
      ExactChats Sample.chats (some Sample.alice) items := by
  let dto := rowToChat Sample.chats
  constructor
  case left =>
    have hfilter : ∀ i ∈ some Sample.alice, isUuid i := by decide +kernel
    have h₁ : chatsPage (some Sample.alice) 1 Sample.chats none =
        .ok ⟨[dto Sample.newer], some <| chatCursor <| dto Sample.newer⟩ :=
      chatsPage_of_select none [dto Sample.newer, dto Sample.older] le_rfl (by decide) hfilter
        (by simp) Sample.chats_valid (by decide +kernel)
    have h₂ : chatsPage (some Sample.alice) 1 Sample.chats (some <| chatCursor <| dto Sample.newer) =
        .ok ⟨[dto Sample.another], some <| chatCursor <| dto Sample.another⟩ :=
      chatsPage_of_select (some <| dto Sample.newer) [dto Sample.another, dto Sample.older] le_rfl
        (by decide) hfilter (by decide +kernel) Sample.chats_valid (by decide +kernel)
    have h₃ : chatsPage (some Sample.alice) 1 Sample.chats (some <| chatCursor <| dto Sample.another) =
        .ok ⟨[dto Sample.older], none⟩ :=
      chatsPage_of_select (some <| dto Sample.another) [dto Sample.older] le_rfl (by decide) hfilter
        (by decide +kernel) Sample.chats_valid (by decide +kernel)
    exact .more h₁ rfl <| .more h₂ rfl <| .last h₃
  case right =>
    rintro ⟨_, w, h⟩
    have hwalkable := w.walkable (by decide) (by decide) h
    have horder : chatsOf Sample.chats (some Sample.alice) = [dto Sample.newer, dto Sample.older] := by
      decide +kernel
    apply hwalkable.untied (dto Sample.newer) ⟨[], [dto Sample.older], horder, by decide, by simp⟩
    exact ⟨dto Sample.another, by decide +kernel, by decide +kernel, rfl, by decide +kernel⟩

example : matchesFilter (some Sample.alice) (rowToChat Sample.chats Sample.another) = false := by
  decide +kernel

end Walks

end Kernel
