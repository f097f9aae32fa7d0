import Mathlib
import NeoTavern.Storage.Conversion

namespace Storage.Product.Legacy

open Platform

-- How many rows of each table of the source were skipped.
structure Skips where
  characters : Nat
  chats      : Nat
  messages   : Nat
  lorebooks  : Nat
  entries    : Nat
  presets    : Nat

def Skips.total (n : Skips) : Nat :=
  n.characters + n.chats + n.messages + n.lorebooks + n.entries + n.presets

-- The entries that a lorebook stores.
def storedEntries (b : LorebookRow) : List ExportLoreEntry :=
  match b.entriesJson with
  | .of entries => entries
  | .text _     => []

-- Each row of the source is inserted or skipped.
structure Accounted (legacy : LegacyDb) (report : ConversionReport) (t : Tables) (n : Skips) :
    Prop where
  characters : (legacy.table "characters").rows.length = t.characters.rows.length + n.characters
  chats      : (legacy.table "chats").rows.length = t.chats.rows.length + n.chats
  messages   : (legacy.table "messages").rows.length = t.messages.rows.length + n.messages
  lorebooks  : (legacy.table "lorebooks").rows.length = t.lorebooks.rows.length + n.lorebooks
  entries    : (legacy.table "lore_entries").rows.length =
    (t.lorebooks.rows.flatMap storedEntries).length + n.entries
  presets    : (legacy.table "presets").rows.length = t.presets.rows.length + n.presets
  skipped    : report.skipped = n.total
  inserted   : report.characters = t.characters.rows.length ∧ report.chats = t.chats.rows.length ∧
    report.messages = t.messages.rows.length ∧ report.lorebooks = t.lorebooks.rows.length ∧
    report.presets = t.presets.rows.length

-- What a conversion that comes to its end leaves behind.
structure Converted (p : Platform) (legacy : LegacyDb) (report : ConversionReport) (t : Tables) :
    Prop where
  accounted : ∃ n, Accounted legacy report t n
  stored    : ∀ b ∈ t.lorebooks, b.entriesJson = .of (entriesOf (p.loreEntries legacy) b.id)
  chats     : ∀ c ∈ t.chats, ∃ character ∈ t.characters, character.id = c.characterId
  messages  : ∀ m ∈ t.messages, ∃ chat ∈ t.chats, chat.id = m.chatId
  numbered  : (legacy.table "messages").columns.contains "sequence" = false → ∀ chatId,
    p.Numbered (legacy.table "messages").rows (t.messages.rows.filter (·.chatId = chatId))

theorem convert_converted {p : Platform} (h : p.convert legacy .empty = .ok (report, t)) :
    Converted p legacy report t := by
  have ⟨⟨r₁, t₁, characterIds⟩, h₁, h⟩ := Except.bind_eq_ok.mp h
  have ⟨⟨r₂, t₂, chatIds⟩, h₂, h⟩ := Except.bind_eq_ok.mp h
  have ⟨⟨r₃, t₃, seqByChat⟩, h₃, h⟩ := Except.bind_eq_ok.mp h
  have ⟨⟨r₄, t₄⟩, h₄, h₅⟩ := Except.bind_eq_ok.mp h
  have ⟨cs, hg₁, ht₁⟩ := convertCharacters_eq_ok h₁
  have ⟨hs, hg₂, ht₂⟩ := convertChats_eq_ok h₂
  have ⟨hg₃, ht₃⟩ := convertMessages_eq_ok h₃
  have ⟨books, hshelved⟩ := convertLorebooks_eq_ok h₄
  have hg₄ := hshelved.grown
  have ⟨ps, hg₅, ht₅⟩ := convertPresets_eq_ok h₅
  -- No later phase touches the characters and the chats.
  have hcharacters : t.characters = t₁.characters := by
    rw [hg₅.tables, hg₄.tables, hg₃.tables, hg₂.tables]
    rfl
  have hchats : t.chats = t₂.chats := by
    rw [hg₅.tables, hg₄.tables, hg₃.tables]
    rfl
  have hgrown := Tables.Grown.of_sections hg₁ hg₂ hg₃ hg₄ hg₅
  have rows₁ : t.characters.rows = cs := hgrown.characters
  have rows₂ : t.chats.rows = hs := hgrown.chats
  have rows₃ : t.messages.rows = number [] (p.drafts legacy chatIds) := hgrown.messages
  have rows₄ : t.lorebooks.rows =
      books.map fun b => b.filled <| entriesOf (p.loreEntries legacy) b.id := hgrown.lorebooks
  have rows₅ : t.presets.rows = ps := hgrown.presets
  have hids : (books.map (·.id)).Nodup := by
    have hnodup := t.lorebooks.nodup
    rw [rows₄, List.map_map] at hnodup
    exact hnodup
  have hstored : (t.lorebooks.rows.flatMap storedEntries).length =
      (p.loreEntries legacy).countP (·.fst ∈ books.map (·.id)) := by
    rw [← Assoc.sum_groups hids, rows₄, List.length_flatMap, List.map_map, List.map_map]
    congr 1
    apply List.map_congr_left
    intro b _
    exact List.length_map _
  have hreported : ∀ k, report.inserted k = ConversionReport.empty.inserted k +
      (if some Kind.characters = some k then cs.length else 0) +
      (if some Kind.chats = some k then hs.length else 0) +
      (if some Kind.messages = some k then (p.drafts legacy chatIds).length else 0) +
      (if some Kind.lorebooks = some k then books.length else 0) +
      (if some Kind.presets = some k then ps.length else 0) := by
    intro k
    rw [ht₅.inserted, hshelved.inserted, ht₃.inserted, ht₂.inserted, ht₁.inserted]
  constructor
  case accounted =>
    have hentries : (p.loreEntries legacy).countP (·.fst ∈ books.map (·.id)) ≤
        (legacy.table "lore_entries").rows.length := by
      have hrecords : (p.loreEntries legacy).length ≤ (legacy.table "lore_entries").rows.length := by
        rw [← length_orderBy (p := p)]
        exact List.length_filterMap_le ..
      exact Nat.le_trans List.countP_le_length hrecords
    have ⟨n₁, hn₁⟩ := Nat.exists_eq_add_of_le ht₁.le
    have ⟨n₂, hn₂⟩ := Nat.exists_eq_add_of_le ht₂.le
    have ⟨n₃, hn₃⟩ := Nat.exists_eq_add_of_le ht₃.le
    have ⟨n₄, hn₄⟩ := Nat.exists_eq_add_of_le hshelved.le
    have ⟨n₅, hn₅⟩ := Nat.exists_eq_add_of_le hentries
    have ⟨n₆, hn₆⟩ := Nat.exists_eq_add_of_le ht₅.le
    refine ⟨⟨n₁, n₂, n₃, n₄, n₅, n₆⟩, ?_⟩
    constructor
    case characters => rwa [rows₁]
    case chats      => rwa [rows₂]
    case messages   => rwa [rows₃, length_number]
    case lorebooks  => rwa [rows₄, List.length_map]
    case entries    => rwa [hstored]
    case presets    => rwa [rows₅]
    case skipped    =>
      have h₁ := ht₁.skipped
      have h₂ := ht₂.skipped
      have h₃ := ht₃.skipped
      have h₄ := hshelved.skipped
      have h₅ := ht₅.skipped
      have hempty : ConversionReport.empty.skipped = 0 := rfl
      rw [Skips.total]
      dsimp only
      omega
    case inserted =>
      rw [rows₁, rows₂, rows₃, rows₄, rows₅, length_number, List.length_map]
      have hzero : ∀ k, ConversionReport.empty.inserted k = 0 := fun k => by cases k <;> rfl
      simp only [hzero, Option.some.injEq] at hreported
      refine ⟨(hreported .characters).trans ?_, (hreported .chats).trans ?_,
        (hreported .messages).trans ?_, (hreported .lorebooks).trans ?_,
        (hreported .presets).trans ?_⟩ <;> simp
  case stored =>
    intro b hb
    rw [Table.mem_def, rows₄] at hb
    have ⟨book, _, heq⟩ := List.mem_map.mp hb
    rw [← heq]
    rfl
  case chats =>
    intro c hc
    rw [Table.mem_def, rows₂] at hc
    have ⟨character, hget⟩ := Option.isSome_iff_exists.mp <| hg₂.admitted c hc
    have ⟨hmem, hid⟩ := Table.get?_eq_some_iff.mp hget
    exact ⟨character, hcharacters ▸ hmem, hid⟩
  case messages =>
    intro m hm
    rw [Table.mem_def, rows₃] at hm
    have hadmitted := (Bool.and_eq_true _ _ |>.mp <| hg₃.admitted m hm).left
    have ⟨chat, hget⟩ := Option.isSome_iff_exists.mp hadmitted
    have ⟨hmem, hid⟩ := Table.get?_eq_some_iff.mp hget
    exact ⟨chat, hchats ▸ hmem, hid⟩
  case numbered =>
    intro hseq chatId
    rw [rows₃]
    exact numbered_drafts hseq chatIds chatId

-- Whatever the source holds, a conversion that comes to its end accounts for all of it.
theorem convertLegacy_converted {p : Platform} (h : p.convertLegacy legacy = .ok (report, t)) :
    Converted p legacy report t := by
  rw [convertLegacy] at h
  have ⟨_, h⟩ := Except.guard_eq_ok.mp h
  have ⟨_, h⟩ := Except.guard_eq_ok.mp h
  split at h
  case h_1 => cases h
  case h_2 => exact convert_converted h

section Sorting

variable {le : String → Value → Value → Bool}

theorem orderedBy_total (htotal : ∀ k v w, le k v w || le k w v) (keys : List String) (a b : Row) :
    orderedBy le keys a b || orderedBy le keys b a := by
  induction keys
  case nil => rfl
  case cons k keys ih =>
    have := htotal k (a k) (b k)
    simp only [orderedBy]
    cases hab : le k (a k) (b k)
    case false => simpa [hab] using this
    case true  =>
      cases hba : le k (b k) (a k)
      case false => rfl
      case true  => simpa using ih

theorem orderedBy_trans (htrans : ∀ k u v w, le k u v → le k v w → le k u w) {keys : List String}
    {a b c : Row} (hab : orderedBy le keys a b) (hbc : orderedBy le keys b c) :
    orderedBy le keys a c := by
  induction keys
  case nil => rfl
  case cons k keys ih =>
    simp only [orderedBy, Bool.and_eq_true, Bool.or_eq_true, Bool.not_eq_true'] at hab hbc ⊢
    obtain ⟨hab, hab'⟩ := hab
    obtain ⟨hbc, hbc'⟩ := hbc
    refine ⟨htrans k _ _ _ hab hbc, ?_⟩
    cases hca : le k (c k) (a k)
    case false => exact .inl rfl
    case true  =>
      have hba := htrans k _ _ _ hbc hca
      have hcb := htrans k _ _ _ hca hab
      rw [hba] at hab'
      rw [hcb] at hbc'
      exact .inr <| ih (hab'.resolve_left (by simp)) (hbc'.resolve_left (by simp))

-- Values by their class, integers by value and texts by their characters.
def Value.sortKey : Value → List Int
  | .null        => [0]
  | .integer i   => [1, i]
  | .real bits   => [2, bits.toNat]
  | .text s      => 3 :: s.toList.map fun c => (c.toNat : Int)
  | .malformed _ => [3]
  | .blob _      => [4]

def sortedAs (v w : Value) : Bool :=
  decide (v.sortKey ≤ w.sortKey)

theorem sortedAs_integer (i j : Int) : sortedAs (.integer i) (.integer j) = decide (i ≤ j) := by
  have h : [1, i] ≤ [1, j] ↔ i ≤ j := by
    rw [← not_lt, ← not_lt, List.cons_lt_cons_iff, List.cons_lt_cons_iff]
    simp only [lt_irrefl, false_or, true_and, and_false, or_false]
  exact decide_eq_decide.mpr h

def sortRows (keys : List String) (rows : List Row) : List Row :=
  rows.insertionSort fun a b => orderedBy (fun _ => sortedAs) keys a b

theorem pairwise_sortRows (keys : List String) (rows : List Row) :
    (sortRows keys rows).Pairwise fun a b => orderedBy (fun _ => sortedAs) keys a b := by
  have hle : ∀ u v w, sortedAs u v → sortedAs v w → sortedAs u w := fun _ _ _ huv hvw =>
    decide_eq_true <| le_trans (of_decide_eq_true huv) (of_decide_eq_true hvw)
  have : Std.Total fun a b : Row => (orderedBy (fun _ => sortedAs) keys a b : Prop) :=
    ⟨fun a b => by
      simpa using orderedBy_total (fun _ v w => by
        simpa [sortedAs] using le_total v.sortKey w.sortKey) keys a b⟩
  have : IsTrans Row fun a b => (orderedBy (fun _ => sortedAs) keys a b : Prop) :=
    ⟨fun _ _ _ => orderedBy_trans fun _ => hle⟩
  exact List.pairwise_insertionSort _ rows

end Sorting

-- A platform that sorts plainly, and knows the JSON and the dates of the source below.
def plain : Platform where
  strings _ := none
  value t   := if t = "\x7b\x7d" then some .emptyObject else none
  rfc3339 i :=
    if i = 0 then some "1970-01-01T00:00:00Z"
    else if i = 1000 then some "1970-01-01T00:00:01Z"
    else none
  le _ _    := sortedAs
  orderBy _ := sortRows
  iterate m := m
  le_refl _ _ v           := decide_eq_true <| le_refl v.sortKey
  le_integer _ _          := sortedAs_integer
  orderBy_perm _ _ rows   := List.perm_insertionSort _ rows
  orderBy_sorted _        := pairwise_sortRows
  iterate_perm m          := .refl m

def row (columns : List (String × Value)) : Row :=
  fun name => (Assoc.get columns name).getD .null

-- A source with rows of each kind that convert and rows that do not. The messages come in disorder.
def smallSource : LegacyDb where
  tables := Assoc.get [
    ("characters", {
      columns := ["id", "name", "created_at", "updated_at"]
      rows    := [
        row [("id", .text "c1"), ("name", .text "Ann"), ("created_at", .integer 0),
          ("updated_at", .integer 0)],
        row [("id", .text "c2"), ("created_at", .integer 0), ("updated_at", .integer 0)]] }),
    ("chats", {
      columns := ["id", "title", "character_id", "created_at", "updated_at"]
      rows    := [
        row [("id", .text "h1"), ("character_id", .text "c1"), ("created_at", .integer 0),
          ("updated_at", .integer 0)],
        row [("id", .text "h2"), ("character_id", .text "c2"), ("created_at", .integer 0),
          ("updated_at", .integer 0)]] }),
    ("messages", {
      columns := ["id", "chat_id", "content", "created_at"]
      rows    := [
        row [("id", .text "m1"), ("chat_id", .text "h1"), ("content", .text "two"),
          ("created_at", .integer 1000)],
        row [("id", .text "m2"), ("chat_id", .text "h1"), ("content", .text "one"),
          ("created_at", .integer 0)],
        row [("id", .text "m3"), ("chat_id", .text "h2"), ("content", .text "lost"),
          ("created_at", .integer 0)]] }),
    ("lorebooks", {
      columns := ["id", "name", "created_at", "updated_at"]
      rows    := [
        row [("id", .text "b1"), ("name", .text "Lore"), ("created_at", .integer 0),
          ("updated_at", .integer 0)]] }),
    ("lore_entries", {
      columns := ["id", "lorebook_id", "content", "created_at", "updated_at"]
      rows    := [
        row [("id", .text "e1"), ("lorebook_id", .text "b1"), ("content", .text "kept"),
          ("created_at", .integer 0), ("updated_at", .integer 0)],
        row [("id", .text "e2"), ("lorebook_id", .text "b2"), ("content", .text "lost"),
          ("created_at", .integer 0), ("updated_at", .integer 0)]] }),
    ("presets", {
      columns := ["id", "name", "data", "created_at", "updated_at"]
      rows    := [
        row [("id", .text "p1"), ("name", .text "Plain"), ("data", .text "\x7b\x7d"),
          ("created_at", .integer 0), ("updated_at", .integer 0)]] })]

theorem smallSource_converted : ∃ report t, plain.convertLegacy smallSource = .ok (report, t) ∧
    report.messages = 2 ∧ report.skipped = 4 ∧ Converted plain smallSource report t := by
  have hok : (plain.convertLegacy smallSource).toOption.any fun s =>
      s.fst.messages = 2 ∧ s.fst.skipped = 4 := by
    decide +kernel
  have ⟨⟨report, t⟩, hs, hcounts⟩ := Option.any_eq_true _ _ |>.mp hok
  have h := Except.toOption_eq_some_iff.mp hs
  have ⟨hmessages, hskipped⟩ := of_decide_eq_true hcounts
  exact ⟨report, t, h, hmessages, hskipped, convertLegacy_converted h⟩

end Storage.Product.Legacy
