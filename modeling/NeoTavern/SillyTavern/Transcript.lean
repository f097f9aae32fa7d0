import Mathlib
import NeoTavern.Lib.Assoc
import NeoTavern.Lib.CodeUnits
import NeoTavern.Lib.Lists
import NeoTavern.Lib.Paging
import NeoTavern.Messages.Repository
import NeoTavern.Shared.Id

namespace SillyTavern

-- A number that no double holds reads as `none`, as `1e999` does.
inductive Json
  | null
  | boolean (b : Bool)
  | number (n : Option Rat)
  | string (t : CodeUnits)
  | array (items : List Json)
  | object (members : List (CodeUnits × Json))

abbrev UnknownRecord := List (CodeUnits × Json)

-- What the runtime makes of a text: `JSON.parse`, `Number` where it is finite, and `Date.parse`.
structure Runtime where
  parse     : CodeUnits → Option Json
  toNumber  : CodeUnits → Option Rat
  dateParse : CodeUnits → Option Int

section Records

def key (name : String) : CodeUnits :=
  .ofString name

def UnknownRecord.get (record : UnknownRecord) (name : String) : Option Json :=
  Assoc.get record <| key name

def recordValue : Option Json → Option UnknownRecord
  | some (.object members) => some members
  | _                      => none

def stringValue : Option Json → Option CodeUnits
  | some (.string t) => some t
  | _                => none

def isTrue : Option Json → Bool
  | some (.boolean b) => b
  | _                 => false

def omitKeys (record : UnknownRecord) (keys : List String) : UnknownRecord :=
  record.filter fun entry => entry.fst ∉ keys.map key

end Records

section Timestamps

variable (rt : Runtime)

-- `Math.round`.
def round (q : Rat) : Int :=
  ⌊q + 1 / 2⌋

def parseTimestamp : Option Json → Option Int
  | some (.number (some n)) => some <| max 0 <| round n
  | some (.string t)        =>
    if t.trim = [] then
      none
    else
      match rt.toNumber t with
      | some n => if 0 < n then some <| round n else rt.dateParse t
      | none   => rt.dateParse t
  | _                       => none

-- `x + 1` for a whole number that a double holds, rounded to even where the sum lies between two doubles.
def plusOne (x : Int) : Int :=
  if x < 2 ^ 53 then x + 1 else if x < 2 ^ 54 ∧ x / 2 % 2 = 1 then x + 2 else x

end Timestamps

structure ImportedMessageInput where
  role      : Messages.MessageRole
  content   : CodeUnits
  name      : Option CodeUnits
  createdAt : Int
  variants  : List CodeUnits
  metadata  : UnknownRecord

section Parse

variable (rt : Runtime) (record : UnknownRecord)

-- `mes`, or `display_text` in its place.
def contentOf : Option CodeUnits :=
  match stringValue <| record.get "mes" with
  | some mes => some mes
  | none     => (recordValue <| record.get "extra").bind fun extra => stringValue <| extra.get "display_text"

def roleOf : Messages.MessageRole :=
  if isTrue <| record.get "is_system" then
    .system
  else if isTrue <| record.get "is_user" then
    .user
  else
    let type := (recordValue <| record.get "extra").bind fun extra => stringValue <| extra.get "type"
    if type = some (key "tool") then .tool else .assistant

def swipesOf : List CodeUnits :=
  match record.get "swipes" with
  | some (.array items) => items.filterMap fun item => stringValue (some item)
  | _                   => []

def parseChatMessage (minimumTimestamp : Int) : Option ImportedMessageInput :=
  (contentOf record).map fun content => {
    role      := roleOf record
    content
    name      := stringValue <| record.get "name"
    createdAt := max minimumTimestamp <| (parseTimestamp rt <| record.get "send_date").getD minimumTimestamp
    variants  := swipesOf record
    metadata  := omitKeys record ["mes", "swipes"]
  }

end Parse

structure MessageRow where
  id                    : String
  parentId              : Option String
  role                  : Messages.MessageRole
  content               : CodeUnits
  name                  : Option CodeUnits
  metadata              : UnknownRecord
  createdAt             : Int
  variantCount          : Nat
  activeVariantPosition : Nat

structure MessageVariantRow where
  id        : String
  messageId : String
  position  : Nat
  content   : CodeUnits
  createdAt : Int

-- The tables as far as they are about the chat, and the variables of `importChat`.
structure ChatImport where
  messages          : List MessageRow := []
  variants          : List MessageVariantRow := []
  ids               : Shared.UuidV7
  parentId          : Option String := none
  messageCount      : Nat := 0
  skippedMessages   : Nat := 0
  previousTimestamp : Int
  firstRecordSeen   : Bool := false

section Append

variable (env : Shared.Environment)

def uniqueStrings (values : List CodeUnits) : List CodeUnits :=
  ((values.map (·.trim)).filter (· ≠ [])).eraseDups

-- The rows of the variants, with ids drawn for each.
def variantRows (messageId : String) (createdAt : Int) :
    Shared.UuidV7 → List (CodeUnits × Nat) → List MessageVariantRow × Shared.UuidV7
  | ids, []                       => ([], ids)
  | ids, (content, index) :: rest =>
    let ids := ids.step env
    let row := { id := ids.text, messageId, position := index, content, createdAt : MessageVariantRow }
    let (rows, ids) := variantRows messageId createdAt ids rest
    (row :: rows, ids)

def appendChatMessage (i : ChatImport) (input : ImportedMessageInput) : ChatImport :=
  let ids := i.ids.step env
  let variants := (uniqueStrings input.variants).filter (· ≠ input.content)
  let row := {
    id                    := ids.text
    parentId              := i.parentId
    role                  := input.role
    content               := input.content
    name                  := input.name
    metadata              := input.metadata
    createdAt             := input.createdAt
    variantCount          := variants.length + 1
    activeVariantPosition := variants.length
    : MessageRow
  }
  let (rows, ids') := variantRows env ids.text input.createdAt ids variants.zipIdx
  { i with messages := i.messages ++ [row], variants := i.variants ++ rows, ids := ids', parentId := some ids.text }

end Append

def maxChatLineChars : Nat := 16 * 1024 * 1024

section Import

variable (rt : Runtime) (env : Shared.Environment)

def isHeader (record : UnknownRecord) : Bool :=
  (recordValue <| record.get "chat_metadata").isSome

-- The object of a line that is neither blank, too long nor anything else.
def lineRecord (line : CodeUnits) : Option UnknownRecord :=
  if line.length > maxChatLineChars then none else recordValue <| rt.parse line

def importLine (i : ChatImport) (line : CodeUnits) : ChatImport :=
  if line.trim = [] then
    i
  else
    match lineRecord rt line with
    | none        => { i with skippedMessages := i.skippedMessages + 1 }
    | some record =>
      if !i.firstRecordSeen && isHeader record then
        { i with firstRecordSeen := true }
      else
        let i := { i with firstRecordSeen := true }
        match parseChatMessage rt record (plusOne i.previousTimestamp) with
        | none       => { i with skippedMessages := i.skippedMessages + 1 }
        | some input =>
          let i := appendChatMessage env i input
          { i with previousTimestamp := input.createdAt, messageCount := i.messageCount + 1 }

def importLines (ids : Shared.UuidV7) (fallbackTime : Int) (lines : List CodeUnits) : ChatImport :=
  lines.foldl (importLine rt env) { ids, previousTimestamp := fallbackTime - 1 }

end Import
end SillyTavern

namespace SillyTavern

section Importable

variable {rt : Runtime} {lines : List CodeUnits} {line : CodeUnits} {records : List UnknownRecord}
  {record : UnknownRecord}

def recordsOf (rt : Runtime) (lines : List CodeUnits) : List UnknownRecord :=
  (lines.filter (·.trim ≠ [])).filterMap <| lineRecord rt

-- The records without the header.
def bodyOf : List UnknownRecord → List UnknownRecord
  | []              => []
  | first :: others => if isHeader first then others else first :: others

-- The lines that a chat is to have a message for.
def importable (rt : Runtime) (lines : List CodeUnits) : List UnknownRecord :=
  (bodyOf <| recordsOf rt lines).filter fun record => (contentOf record).isSome

theorem recordsOf_blank (h : line.trim = []) : recordsOf rt (lines ++ [line]) = recordsOf rt lines := by
  simp [recordsOf, h]

theorem recordsOf_none (h : lineRecord rt line = none) : recordsOf rt (lines ++ [line]) = recordsOf rt lines := by
  by_cases hb : line.trim = []
  case pos => exact recordsOf_blank hb
  case neg => simp [recordsOf, hb, h]

theorem recordsOf_some (hb : line.trim ≠ []) (h : lineRecord rt line = some record) :
    recordsOf rt (lines ++ [line]) = recordsOf rt lines ++ [record] := by
  simp [recordsOf, hb, h]

theorem bodyOf_header (h : isHeader record) : bodyOf [record] = [] :=
  if_pos h

theorem bodyOf_concat (h : records ≠ [] ∨ isHeader record = false) :
    bodyOf (records ++ [record]) = bodyOf records ++ [record] := by
  cases records
  case nil =>
    have hheader : isHeader record = false := h.resolve_left (absurd rfl)
    simp [bodyOf, hheader]
  case cons first others =>
    simp only [List.cons_append, bodyOf]
    split <;> rfl

end Importable

-- What has been stored for a record: a message and its variants, and the ids drawn for them.
structure Stored where
  row      : MessageRow
  variants : List MessageVariantRow
  made     : List Shared.UuidV7

-- The swipes that are stored beside the message.
def keptSwipes (record : UnknownRecord) (content : CodeUnits) : List CodeUnits :=
  (uniqueStrings <| swipesOf record).filter (· ≠ content)

structure IsStored (record : UnknownRecord) (st : Stored) : Prop where
  content  : contentOf record = some st.row.content
  role     : st.row.role = roleOf record
  name     : st.row.name = stringValue (record.get "name")
  metadata : st.row.metadata = omitKeys record ["mes", "swipes"]
  active   : st.row.activeVariantPosition = (keptSwipes record st.row.content).length
  count    : st.row.variantCount = (keptSwipes record st.row.content).length + 1
  variants : st.variants.map (fun v => (v.messageId, v.position, v.content)) =
    (keptSwipes record st.row.content).zipIdx.map fun (content, index) => (st.row.id, index, content)
  made     : ∃ g gs, st.made = g :: gs ∧ st.row.id = g.text

section Append

variable {env : Shared.Environment} {messageId : String} {createdAt : Int} {ids : Shared.UuidV7}
  {entries : List (CodeUnits × Nat)} {i : ChatImport}

theorem variantRows_made (env : Shared.Environment) (messageId : String) (createdAt : Int) (ids : Shared.UuidV7)
    (entries : List (CodeUnits × Nat)) :
    ∃ made, Shared.UuidV7.Made ids made (variantRows env messageId createdAt ids entries).snd := by
  induction entries generalizing ids
  case nil => exact ⟨[], .nil _⟩
  case cons entry entries ih =>
    have ⟨made, h⟩ := ih (ids.step env)
    exact ⟨_, (Shared.UuidV7.Made.step env ids).append h⟩

theorem variantRows_map : (variantRows env messageId createdAt ids entries).fst.map
    (fun v => (v.messageId, v.position, v.content)) =
      entries.map fun (content, index) => (messageId, index, content) := by
  induction entries generalizing ids
  case nil => rfl
  case cons entry entries ih => exact congrArg _ ih

theorem le_plusOne (x : Int) : x ≤ plusOne x := by
  rw [plusOne]
  split
  case isTrue  => omega
  case isFalse => split <;> omega

-- Appending the message of a record.
structure Appended (record : UnknownRecord) (i i' : ChatImport) (st : Stored) : Prop where
  stored   : IsStored record st
  messages : i'.messages = i.messages ++ [st.row]
  variants : i'.variants = i.variants ++ st.variants
  made     : Shared.UuidV7.Made i.ids st.made i'.ids
  parent   : st.row.parentId = i.parentId ∧ i'.parentId = some st.row.id

theorem appendChatMessage_appended {input : ImportedMessageInput} {rt : Runtime} {record : UnknownRecord} {t : Int}
    (env : Shared.Environment) (i : ChatImport) (h : parseChatMessage rt record t = some input) :
    ∃ st, Appended record i (appendChatMessage env i input) st ∧ st.row.createdAt = input.createdAt ∧
      t ≤ input.createdAt := by
  have ⟨content, hcontent, hinput⟩ := Option.map_eq_some_iff.mp h
  subst hinput
  let ids := i.ids.step env
  let time := max t <| (parseTimestamp rt <| record.get "send_date").getD t
  let entries := (keptSwipes record content).zipIdx
  have ⟨made, hmade⟩ := variantRows_made env ids.text time ids entries
  let st : Stored := {
    row := {
      id                    := ids.text
      parentId              := i.parentId
      role                  := roleOf record
      content
      name                  := stringValue <| record.get "name"
      metadata              := omitKeys record ["mes", "swipes"]
      createdAt             := time
      variantCount          := (keptSwipes record content).length + 1
      activeVariantPosition := (keptSwipes record content).length
    }
    variants := (variantRows env ids.text time ids entries).fst
    made     := ids :: made
  }
  have hstored : IsStored record st := {
    content  := hcontent
    role     := rfl
    name     := rfl
    metadata := rfl
    active   := rfl
    count    := rfl
    variants := variantRows_map
    made     := ⟨ids, made, rfl, rfl⟩
  }
  exact ⟨st, ⟨hstored, rfl, rfl, (Shared.UuidV7.Made.step env i.ids).append hmade, rfl, rfl⟩, rfl, le_max_left ..⟩

end Append

section Run

variable {rt : Runtime} {env : Shared.Environment} {ids : Shared.UuidV7} {lines : List CodeUnits} {line : CodeUnits}
  {i i' : ChatImport} {stored : List Stored} {st : Stored} {record : UnknownRecord}

-- What the lines that have been read have left behind.
structure Held (rt : Runtime) (ids : Shared.UuidV7) (lines : List CodeUnits) (i : ChatImport) (stored : List Stored) :
    Prop where
  seen     : i.firstRecordSeen = false ↔ recordsOf rt lines = []
  each     : List.Forall₂ IsStored (importable rt lines) stored
  messages : i.messages = stored.map (·.row)
  variants : i.variants = stored.flatMap (·.variants)
  made     : Shared.UuidV7.Made ids (stored.flatMap (·.made)) i.ids
  times    : stored.Pairwise (·.row.createdAt ≤ ·.row.createdAt)
  last     : ∀ st ∈ stored, st.row.createdAt ≤ i.previousTimestamp
  parents  : none :: stored.map (some ·.row.id) = stored.map (·.row.parentId) ++ [i.parentId]

theorem Held.init (rt : Runtime) (ids : Shared.UuidV7) (t : Int) :
    Held rt ids [] { ids, previousTimestamp := t } [] where
  seen     := iff_of_true rfl rfl
  each     := .nil
  messages := rfl
  variants := rfl
  made     := .nil ids
  times    := .nil
  last     := fun _ h => by cases h
  parents  := rfl

-- A line that brings no message.
theorem Held.skip (h : Held rt ids lines i stored) (hmessages : i'.messages = i.messages)
    (hvariants : i'.variants = i.variants) (hids : i'.ids = i.ids)
    (hlast : i'.previousTimestamp = i.previousTimestamp) (hparent : i'.parentId = i.parentId)
    (hseen : i'.firstRecordSeen = false ↔ recordsOf rt (lines ++ [line]) = [])
    (himportable : importable rt (lines ++ [line]) = importable rt lines) :
    Held rt ids (lines ++ [line]) i' stored where
  seen     := hseen
  each     := himportable ▸ h.each
  messages := hmessages ▸ h.messages
  variants := hvariants ▸ h.variants
  made     := hids ▸ h.made
  times    := h.times
  last     := hlast ▸ h.last
  parents  := hparent ▸ h.parents

theorem Held.append (h : Held rt ids lines i stored) (happended : Appended record i i' st)
    (himportable : importable rt (lines ++ [line]) = importable rt lines ++ [record])
    (hseen : i'.firstRecordSeen = false ↔ recordsOf rt (lines ++ [line]) = [])
    (htime : i.previousTimestamp ≤ st.row.createdAt) (hlast : i'.previousTimestamp = st.row.createdAt) :
    Held rt ids (lines ++ [line]) i' (stored ++ [st]) where
  seen     := hseen
  each     := himportable ▸ List.rel_append h.each (.cons happended.stored .nil)
  messages := by rw [happended.messages, h.messages, List.map_append]; rfl
  variants := by rw [happended.variants, h.variants, List.flatMap_append, List.flatMap_singleton]
  made     := by
    rw [List.flatMap_append, List.flatMap_singleton]
    exact h.made.append happended.made
  times    := List.pairwise_append.mpr
    ⟨h.times, List.pairwise_singleton _ _, fun old hold new hnew =>
      List.mem_singleton.mp hnew ▸ (h.last old hold).trans htime⟩
  last     := by
    intro old hold
    rw [hlast]
    cases List.mem_append.mp hold
    case inl hold => exact (h.last old hold).trans htime
    case inr hold => exact List.mem_singleton.mp hold ▸ le_rfl
  parents  := by
    have hparents := h.parents
    rw [List.map_append, List.map_append, ← List.cons_append, hparents, happended.parent.right]
    simp [happended.parent.left]

theorem importable_some (hb : line.trim ≠ []) (hrecord : lineRecord rt line = some record)
    (hbody : recordsOf rt lines ≠ [] ∨ isHeader record = false) : importable rt (lines ++ [line]) =
      importable rt lines ++ if (contentOf record).isSome then [record] else [] := by
  rw [importable, recordsOf_some hb hrecord, bodyOf_concat hbody, List.filter_append, importable]
  congr 1
  cases h : (contentOf record).isSome <;> simp [h]

theorem importLine_held (h : Held rt ids lines i stored) :
    ∃ stored, Held rt ids (lines ++ [line]) (importLine rt env i line) stored := by
  rw [importLine]
  by_cases hb : line.trim = []
  case pos =>
    have hrecords : recordsOf rt (lines ++ [line]) = recordsOf rt lines := recordsOf_blank hb
    rw [if_pos hb]
    refine ⟨stored, h.skip rfl rfl rfl rfl rfl ?_ ?_⟩
    case refine_1 => rw [hrecords]; exact h.seen
    case refine_2 => rw [importable, hrecords, importable]
  case neg =>
    rw [if_neg hb]
    cases hrecord : lineRecord rt line
    case none =>
      have hrecords : recordsOf rt (lines ++ [line]) = recordsOf rt lines := recordsOf_none hrecord
      refine ⟨stored, h.skip rfl rfl rfl rfl rfl ?_ ?_⟩
      case refine_1 => rw [hrecords]; exact h.seen
      case refine_2 => rw [importable, hrecords, importable]
    case some record =>
      have hrecords : recordsOf rt (lines ++ [line]) = recordsOf rt lines ++ [record] := recordsOf_some hb hrecord
      have hseen : true = false ↔ recordsOf rt (lines ++ [line]) = [] := by simp [hrecords]
      by_cases hheader : (!i.firstRecordSeen && isHeader record) = true
      case pos =>
        -- The header.
        rw [Bool.and_eq_true, Bool.not_eq_true'] at hheader
        have hfirst : recordsOf rt lines = [] := h.seen.mp hheader.left
        simp only [hheader, Bool.not_false, Bool.and_self, if_true]
        refine ⟨stored, h.skip rfl rfl rfl rfl rfl hseen ?_⟩
        rw [importable, hrecords, hfirst, List.nil_append, bodyOf_header hheader.right, importable, hfirst]
        rfl
      case neg =>
        have hbody : recordsOf rt lines ≠ [] ∨ isHeader record = false := by
          by_cases hfirst : recordsOf rt lines = []
          case neg => exact .inl hfirst
          case pos =>
            have hnot := h.seen.mpr hfirst
            exact .inr <| by simpa [hnot] using hheader
        have himportable := importable_some hb hrecord hbody
        simp only [hheader]
        cases hparsed : parseChatMessage rt record (plusOne i.previousTimestamp)
        case none =>
          have hcontent : contentOf record = none := Option.map_eq_none_iff.mp hparsed
          refine ⟨stored, h.skip rfl rfl rfl rfl rfl hseen ?_⟩
          rw [himportable, hcontent]
          exact List.append_nil _
        case some input =>
          have ⟨st, happended, htime, hle⟩ :=
            appendChatMessage_appended env { i with firstRecordSeen := true } hparsed
          have hsome : (contentOf record).isSome := by rw [happended.stored.content]; rfl
          rw [if_pos hsome] at himportable
          have hlater : i.previousTimestamp ≤ st.row.createdAt :=
            htime ▸ (le_plusOne i.previousTimestamp).trans hle
          refine ⟨stored ++ [st], h.append ?_ himportable hseen hlater htime.symm⟩
          exact ⟨happended.stored, happended.messages, happended.variants, happended.made, happended.parent⟩

theorem importLines_held (rt : Runtime) (env : Shared.Environment) (ids : Shared.UuidV7) (fallbackTime : Int)
    (lines : List CodeUnits) : ∃ stored, Held rt ids lines (importLines rt env ids fallbackTime lines) stored := by
  induction lines using List.reverseRecOn
  case nil => exact ⟨[], .init rt ids _⟩
  case append_singleton lines line ih =>
    have ⟨stored, h⟩ := ih
    rw [importLines, List.foldl_append]
    exact importLine_held h

end Run

section Texts

variable {record : UnknownRecord} {content t : CodeUnits}

theorem mem_uniqueStrings {values : List CodeUnits} :
    t ∈ uniqueStrings values ↔ t ≠ [] ∧ ∃ value ∈ values, value.trim = t := by
  simp only [uniqueStrings, List.mem_eraseDups, List.mem_filter, List.mem_map, decide_eq_true_eq]
  exact and_comm

-- The texts of a message: its own, and its swipes that are not blank, each of them once.
def AreTextsOf (record : UnknownRecord) (texts : List CodeUnits) : Prop :=
  texts.Nodup ∧ ∀ t, t ∈ texts ↔ contentOf record = some t ∨ t ∈ swipesOf record ∧ t.trim ≠ []

-- No swipe changes when the white space around it goes. A text of the message itself may, where the swipes
-- have the changed text as well.
def Untouched (record : UnknownRecord) : Prop :=
  ∀ swipe ∈ swipesOf record, swipe.trim ≠ [] →
    swipe.trim = swipe ∨ contentOf record = some swipe ∧ swipe.trim ∈ swipesOf record

theorem texts_nodup : (content :: keptSwipes record content).Nodup := by
  apply List.nodup_cons.mpr
  apply And.intro
  case left  => exact fun h => of_decide_eq_true (List.mem_filter.mp h).right rfl
  case right =>
    have hnodup : (uniqueStrings <| swipesOf record).Nodup := Lists.nodup_eraseDups _
    exact hnodup.filter _

theorem mem_texts : t ∈ content :: keptSwipes record content ↔
    t = content ∨ t ≠ content ∧ t ≠ [] ∧ ∃ swipe ∈ swipesOf record, swipe.trim = t := by
  rw [List.mem_cons, keptSwipes, List.mem_filter, mem_uniqueStrings, decide_eq_true_eq]
  exact or_congr_right and_comm

theorem areTextsOf_iff (hcontent : contentOf record = some content) :
    AreTextsOf record (content :: keptSwipes record content) ↔ Untouched record := by
  simp only [AreTextsOf, texts_nodup, true_and, mem_texts, Untouched, hcontent, Option.some.injEq]
  constructor
  case mp =>
    intro h swipe hswipe hblank
    by_cases htrim : swipe.trim = swipe
    case pos => exact .inl htrim
    case neg =>
      have hown : content = swipe := by
        cases (h swipe).mpr (.inr ⟨hswipe, hblank⟩)
        case inl he => exact he.symm
        case inr hstored =>
          have ⟨_, _, other, _, hother⟩ := hstored
          exact absurd (hother ▸ other.trim_trim) htrim
      refine .inr ⟨hown, ?_⟩
      have hne : swipe.trim ≠ content := hown ▸ htrim
      cases (h swipe.trim).mp (.inr ⟨hne, hblank, swipe, hswipe, rfl⟩)
      case inl he   => exact absurd he.symm hne
      case inr hmem => exact hmem.left
  case mpr =>
    intro h t
    constructor
    case mp =>
      intro ht
      cases ht
      case inl he => exact .inl he.symm
      case inr hstored =>
        have ⟨_, hne, swipe, hswipe, htrim⟩ := hstored
        have hblank : t.trim ≠ [] := by rwa [← htrim, swipe.trim_trim, htrim]
        refine .inr ⟨?_, hblank⟩
        cases h swipe hswipe (htrim ▸ hne)
        case inl he   => rwa [← htrim, he]
        case inr hmem => exact htrim ▸ hmem.right
    case mpr =>
      intro ht
      by_cases hown : t = content
      case pos => exact .inl hown
      case neg =>
        have ⟨hswipe, hblank⟩ := ht.resolve_left (Ne.symm hown)
        have htrim : t.trim = t := (h t hswipe hblank).resolve_right fun hmem => hown hmem.left.symm
        exact .inr ⟨hown, htrim ▸ hblank, t, hswipe, htrim⟩

end Texts

section Read

variable {rt : Runtime} {ids : Shared.UuidV7} {lines : List CodeUnits} {i : ChatImport} {stored : List Stored}
  {st : Stored} {record : UnknownRecord}

def MessageRow.place (row : MessageRow) : Int ×ₗ String :=
  toLex (row.createdAt, row.id)

-- The messages as they are read back.
def messagesOf (i : ChatImport) : List MessageRow :=
  Paging.orderBy MessageRow.place i.messages

def variantsOf (i : ChatImport) (row : MessageRow) : List MessageVariantRow :=
  i.variants.filter (·.messageId = row.id)

def textsOf (i : ChatImport) (row : MessageRow) : List CodeUnits :=
  row.content :: (variantsOf i row).map (·.content)

theorem Held.isStored (h : Held rt ids lines i stored) (hst : st ∈ stored) : ∃ record, IsStored record st := by
  have ⟨record, _, hrecord⟩ := Lists.exists_of_forall₂ h.each hst
  exact ⟨record, hrecord⟩

theorem Held.ids_pairwise (h : Held rt ids lines i stored) (h48 : i.ids.lastTimestamp < 2 ^ 48) :
    stored.Pairwise (·.row.id < ·.row.id) := by
  have htexts := (List.pairwise_flatMap.mp <| h.made.text_pairwise h48).right
  apply htexts.imp_of_mem
  intro st st' hst hst' hlt
  have ⟨_, hstored⟩ := h.isStored hst
  have ⟨_, hstored'⟩ := h.isStored hst'
  have ⟨g, gs, hmade, hid⟩ := hstored.made
  have ⟨g', gs', hmade', hid'⟩ := hstored'.made
  rw [hid, hid']
  exact hlt g (hmade ▸ List.mem_cons_self) g' (hmade' ▸ List.mem_cons_self)

-- The messages are read back in the order in which they have been stored.
theorem Held.messagesOf (h : Held rt ids lines i stored) (h48 : i.ids.lastTimestamp < 2 ^ 48) :
    messagesOf i = stored.map (·.row) := by
  have hplaces : (stored.map (·.row)).Pairwise (·.place < ·.place) := by
    apply List.pairwise_map.mpr
    apply (h.times.and <| h.ids_pairwise h48).imp
    intro st st' ⟨htime, hid⟩
    apply Prod.Lex.toLex_lt_toLex.mpr
    exact htime.lt_or_eq.imp_right fun he => ⟨he, hid⟩
  have hne : i.messages.Pairwise (·.place ≠ ·.place) := h.messages ▸ hplaces.imp fun hlt => hlt.ne
  apply Paging.eq_of_ordered (Paging.orderBy_pairwise hne) hplaces
  intro row
  rw [Paging.mem_orderBy, h.messages]

theorem Held.variantsOf (h : Held rt ids lines i stored) (h48 : i.ids.lastTimestamp < 2 ^ 48) (hst : st ∈ stored) :
    variantsOf i st.row = st.variants := by
  have hnodup : (stored.map (·.row.id)).Nodup :=
    List.pairwise_map.mpr <| (h.ids_pairwise h48).imp fun hlt => hlt.ne
  have hkey (st : Stored) (hst : st ∈ stored) (v : MessageVariantRow) (hv : v ∈ st.variants) :
      v.messageId = st.row.id := by
    have ⟨record, hstored⟩ := h.isStored hst
    have hmem := List.mem_map_of_mem (f := fun v => (v.messageId, v.position, v.content)) hv
    rw [hstored.variants] at hmem
    have ⟨entry, _, he⟩ := List.mem_map.mp hmem
    exact (congrArg Prod.fst he).symm
  rw [SillyTavern.variantsOf, h.variants]
  exact Lists.filter_flatMap_of_key hkey hnodup hst

structure IsMessageOf (record : UnknownRecord) (row : MessageRow) : Prop where
  content  : contentOf record = some row.content
  role     : row.role = roleOf record
  name     : row.name = stringValue (record.get "name")
  metadata : row.metadata = omitKeys record ["mes", "swipes"]

-- What is expected of an imported chat, apart from the texts of the variants.
structure Reproduced (rt : Runtime) (lines : List CodeUnits) (i : ChatImport) : Prop where
  messages  : List.Forall₂ IsMessageOf (importable rt lines) (messagesOf i)
  parents   : (messagesOf i).map (·.parentId) = (none :: (messagesOf i).map (some ·.id)).dropLast
  positions : ∀ row ∈ messagesOf i, row.variantCount = row.activeVariantPosition + 1 ∧
    (variantsOf i row).map (·.position) = List.range row.activeVariantPosition

theorem IsStored.positions (h : IsStored record st) :
    st.variants.map (·.position) = List.range st.row.activeVariantPosition := by
  have hmap := congrArg (List.map fun v => v.snd.fst) h.variants
  rw [List.map_map, List.map_map] at hmap
  rw [h.active, List.range_eq_range', ← List.zipIdx_map_snd 0]
  exact hmap

theorem IsStored.contents (h : IsStored record st) :
    st.variants.map (·.content) = keptSwipes record st.row.content := by
  have hmap := congrArg (List.map fun v => v.snd.snd) h.variants
  rw [List.map_map, List.map_map] at hmap
  rw [← List.zipIdx_map_fst 0 (keptSwipes record st.row.content)]
  exact hmap

theorem Held.reproduced (h : Held rt ids lines i stored) (h48 : i.ids.lastTimestamp < 2 ^ 48) :
    Reproduced rt lines i := by
  have hmessages := h.messagesOf h48
  constructor
  case messages =>
    rw [hmessages, List.forall₂_map_right_iff]
    exact h.each.imp fun record st hstored => ⟨hstored.content, hstored.role, hstored.name, hstored.metadata⟩
  case parents =>
    rw [hmessages, List.map_map, List.map_map]
    have hparents := congrArg List.dropLast h.parents
    rw [List.dropLast_concat] at hparents
    exact hparents.symm
  case positions =>
    intro row hrow
    rw [hmessages] at hrow
    have ⟨st, hst, he⟩ := List.mem_map.mp hrow
    have ⟨record, hstored⟩ := h.isStored hst
    subst he
    rw [h.variantsOf h48 hst]
    exact ⟨hstored.count.trans <| congrArg (· + 1) hstored.active.symm, hstored.positions⟩

-- An imported chat has a message for each line that can be imported, in their order and each on its
-- predecessor. The texts of the messages are those of the lines where no swipe changes when it is trimmed.
theorem importLines_texts_iff (rt : Runtime) (env : Shared.Environment) (ids : Shared.UuidV7) (fallbackTime : Int)
    (lines : List CodeUnits) (h48 : (importLines rt env ids fallbackTime lines).ids.lastTimestamp < 2 ^ 48) :
    Reproduced rt lines (importLines rt env ids fallbackTime lines) ∧
    (List.Forall₂ (fun record row => AreTextsOf record <| textsOf (importLines rt env ids fallbackTime lines) row)
        (importable rt lines) (messagesOf <| importLines rt env ids fallbackTime lines) ↔
      ∀ record ∈ importable rt lines, Untouched record) := by
  have ⟨stored, h⟩ := importLines_held rt env ids fallbackTime lines
  apply And.intro <| h.reproduced h48
  rw [h.messagesOf h48, List.forall₂_map_right_iff]
  apply Lists.forall₂_iff_forall h.each
  intro record st hst hstored
  rw [textsOf, h.variantsOf h48 hst, hstored.contents]
  exact areTextsOf_iff hstored.content

-- A header and a message, `mes` also being a swipe.
def headerLine : CodeUnits :=
  key "\x7b\"chat_metadata\":\x7b\x7d\x7d"

def messageLine (mes : String) : CodeUnits :=
  key <| "\x7b\"mes\":\"" ++ mes ++ "\",\"swipes\":[\"" ++ mes ++ "\",\"Hello\"]\x7d"

def messageRecord (mes : String) : UnknownRecord :=
  [(key "mes", .string <| key mes), (key "swipes", .array [.string <| key mes, .string <| key "Hello"])]

def transcriptRuntime (mes : String) : Runtime where
  parse line :=
    if line = headerLine then
      some <| .object [(key "chat_metadata", .object [])]
    else if line = messageLine mes then
      some <| .object <| messageRecord mes
    else
      none
  toNumber _  := none
  dateParse _ := none

def morning : Shared.Environment where
  dateNow _ := 100
  random _  := 0

def morningImport (mes : String) : ChatImport :=
  importLines (transcriptRuntime mes) morning .initial 0 [headerLine, messageLine mes]

-- The text ends in a space: it comes back a second time without the space.
theorem spaced_texts :
    (messagesOf <| morningImport "Hi ").map (textsOf <| morningImport "Hi ") =
        [[key "Hi ", key "Hi", key "Hello"]] ∧
    ¬AreTextsOf (messageRecord "Hi ") [key "Hi ", key "Hi", key "Hello"] := by
  constructor
  case left => decide +kernel
  case right =>
    intro h
    have hcontent : contentOf (messageRecord "Hi ") = some (key "Hi ") := by decide +kernel
    have hswipes : swipesOf (messageRecord "Hi ") = [key "Hi ", key "Hello"] := by decide +kernel
    have htexts := (h.right <| key "Hi").mp <| by decide +kernel
    rw [hcontent, hswipes] at htexts
    exact absurd htexts <| by decide +kernel

theorem plain_texts : Reproduced (transcriptRuntime "Hi") [headerLine, messageLine "Hi"] (morningImport "Hi") ∧
    ∃ row, messagesOf (morningImport "Hi") = [row] ∧
      AreTextsOf (messageRecord "Hi") (textsOf (morningImport "Hi") row) := by
  have h48 : (morningImport "Hi").ids.lastTimestamp < 2 ^ 48 := by decide +kernel
  have himportable : importable (transcriptRuntime "Hi") [headerLine, messageLine "Hi"] = [messageRecord "Hi"] := by
    rfl
  have huntouched : Untouched (messageRecord "Hi") := by
    have hswipes : swipesOf (messageRecord "Hi") = [key "Hi", key "Hello"] := by decide +kernel
    have hall : ∀ swipe ∈ [key "Hi", key "Hello"], swipe.trim = swipe := by decide +kernel
    intro swipe hswipe _
    rw [hswipes] at hswipe
    exact .inl <| hall swipe hswipe
  have ⟨hreproduced, hiff⟩ := importLines_texts_iff (transcriptRuntime "Hi") morning .initial 0
    [headerLine, messageLine "Hi"] h48
  rw [himportable] at hiff
  have htexts := hiff.mpr fun record hrecord => List.mem_singleton.mp hrecord ▸ huntouched
  have ⟨row, rows, hrow, hrows, he⟩ := List.forall₂_cons_left_iff.mp htexts
  rw [List.forall₂_nil_left_iff.mp hrows] at he
  exact ⟨hreproduced, row, he, hrow⟩

end Read

end SillyTavern
