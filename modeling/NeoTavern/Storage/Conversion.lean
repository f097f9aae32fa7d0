import NeoTavern.Lib.Lists
import NeoTavern.Storage.Legacy

namespace Storage.Product.Legacy

open Platform

section Loop

-- The records that the rows of a query give.
def recordsOf {α : Type} (selected : List String) (read : Cells → Except String α) (rows : List Row) : List α :=
  rows.filterMap fun row => (read <| cells selected row).toOption

def ConversionReport.inserted (r : ConversionReport) : Kind → Nat
  | .characters => r.characters
  | .chats      => r.chats
  | .messages   => r.messages
  | .lorebooks  => r.lorebooks
  | .presets    => r.presets

-- `count` adds one to the rows of a kind, or to none.
structure Counting (count : ConversionReport → ConversionReport)
    (kind : Option Kind) : Prop where
  skipped  : ∀ r, (count r).skipped = r.skipped
  inserted : ∀ r k, (count r).inserted k = r.inserted k + if kind = some k then 1 else 0

theorem counting_characters :
    Counting (fun r => { r with characters := r.characters + 1 }) (some .characters) :=
  ⟨fun _ => rfl, fun _ k => by cases k <;> rfl⟩

theorem counting_chats :
    Counting (fun r => { r with chats := r.chats + 1 }) (some .chats) :=
  ⟨fun _ => rfl, fun _ k => by cases k <;> rfl⟩

theorem counting_messages :
    Counting (fun r => { r with messages := r.messages + 1 }) (some .messages) :=
  ⟨fun _ => rfl, fun _ k => by cases k <;> rfl⟩

theorem counting_lorebooks :
    Counting (fun r => { r with lorebooks := r.lorebooks + 1 }) (some .lorebooks) :=
  ⟨fun _ => rfl, fun _ k => by cases k <;> rfl⟩

theorem counting_presets :
    Counting (fun r => { r with presets := r.presets + 1 }) (some .presets) :=
  ⟨fun _ => rfl, fun _ k => by cases k <;> rfl⟩

theorem counting_none : Counting (fun r => r) none :=
  ⟨fun _ => rfl, fun _ _ => rfl⟩

-- Of `total` rows, `kept` were inserted and the others skipped.
structure Tallied (kind : Option Kind) (kept total : Nat) (r r' : ConversionReport) : Prop where
  le       : kept ≤ total
  skipped  : r'.skipped + kept = r.skipped + total
  inserted : ∀ k, r'.inserted k = r.inserted k + if kind = some k then kept else 0

variable {α : Type} {selected : List String} {read : Cells → Except String α}
  {count : ConversionReport → ConversionReport} {keep : σ → α → Except StorageError σ}
  {kind : Option Kind}

theorem readValues_eq_ok {get : Cells} (h : readValues selected row = .ok get) : get = cells selected row := by
  rw [readValues] at h
  split at h
  case isTrue  => cases h
  case isFalse => exact (Except.pure_eq_ok.mp h).symm

theorem recordsOf_cons : recordsOf selected read (row :: rows) =
    (read <| cells selected row).toOption.toList ++ recordsOf selected read rows := by
  rw [recordsOf, List.filterMap_cons]
  cases (read <| cells selected row).toOption
  case none   => rfl
  case some a => rfl

theorem eachRow_eq_ok (hc : Counting count kind) {s s' : ConversionReport × σ}
    (h : eachRow selected read count keep rows s = .ok s') :
    (recordsOf selected read rows).foldlM keep s.snd = .ok s'.snd ∧
      Tallied kind (recordsOf selected read rows).length rows.length s.fst s'.fst := by
  induction rows generalizing s
  case nil =>
    cases Except.pure_eq_ok.mp h
    exact ⟨rfl, Nat.le_refl _, rfl, fun k => (ite_self 0).symm ▸ rfl⟩
  case cons row rows ih =>
    obtain ⟨report, s⟩ := s
    rw [eachRow] at h
    have ⟨get, hget, h⟩ := Except.bind_eq_ok.mp h
    cases readValues_eq_ok hget
    rw [recordsOf_cons]
    split at h
    case h_1 why hread =>
      have ⟨hfold, ht⟩ := ih h
      rw [hread]
      constructor
      case left  => exact hfold
      case right =>
        constructor
        case le       => exact Nat.le_succ_of_le ht.le
        case skipped  =>
          have := ht.skipped
          simp only [Except.toOption, Option.toList, List.nil_append, List.length_cons, skip]
            at this ⊢
          omega
        case inserted => exact ht.inserted
    case h_2 a hread =>
      have ⟨t, hkeep, h⟩ := Except.bind_eq_ok.mp h
      have ⟨hfold, ht⟩ := ih h
      rw [hread]
      constructor
      case left =>
        refine (List.foldlM_cons ..).trans ?_
        exact Except.bind_eq_ok.mpr ⟨t, hkeep, hfold⟩
      case right =>
        constructor
        case le       => exact Nat.succ_le_succ ht.le
        case skipped  =>
          have := ht.skipped
          simp only [Except.toOption, Option.toList, List.singleton_append, List.length_cons,
            hc.skipped] at this ⊢
          omega
        case inserted =>
          intro k
          rw [ht.inserted, hc.inserted]
          by_cases hk : kind = some k
          case pos => simp [hk, Except.toOption]; omega
          case neg => simp [hk]

end Loop

section Inserts

theorem execute_eq_ok {sec : Section ρ} (h : execute sec t row = .ok t') :
    sec.Grown [row] t t' := by
  rw [execute] at h
  split at h
  case h_1 t'' hi => exact Except.pure_eq_ok.mp h ▸ .of_insert hi
  case h_2        => cases h

theorem foldlM_execute {sec : Section ρ} (h : rows.foldlM (execute sec) t = .ok t') :
    sec.Grown rows t t' := by
  refine Except.foldlM_induction (f := execute sec) ?_ ?_ h
  case refine_1 => exact fun t => .refl sec t
  case refine_2 =>
    intro row rows t t' t'' hrow ih
    exact (execute_eq_ok hrow).trans ih

theorem foldlM_executeNoting {sec : Section ρ} {s s' : Tables × List String}
    (h : rows.foldlM (executeNoting sec) s = .ok s') :
    sec.Grown rows s.fst s'.fst := by
  refine Except.foldlM_induction (f := executeNoting sec)
    (motive := fun rows s s' => sec.Grown rows s.fst s'.fst) ?_ ?_ h
  case refine_1 => exact fun s => .refl sec s.fst
  case refine_2 =>
    intro row rows s s' s'' hrow ih
    have ⟨t, ht, hs⟩ := Except.bind_eq_ok.mp hrow
    cases Except.pure_eq_ok.mp hs
    exact (execute_eq_ok ht).trans ih

-- The rows that drafts give, from the counters on.
def number : List (String × Int) → List Draft → List MessageRow
  | _, []      => []
  | m, d :: ds => d.numbered (d.take m).fst :: number (d.take m).snd ds

theorem foldlM_executeNumbering {s s' : Tables × List (String × Int)}
    (h : ds.foldlM executeNumbering s = .ok s') :
    messages.Grown (number s.snd ds) s.fst s'.fst := by
  refine Except.foldlM_induction (f := executeNumbering)
    (motive := fun ds s s' => messages.Grown (number s.snd ds) s.fst s'.fst) ?_ ?_ h
  case refine_1 => exact fun s => .refl messages s.fst
  case refine_2 =>
    intro d ds s s' s'' hd ih
    have ⟨t, ht, hs⟩ := Except.bind_eq_ok.mp hd
    cases Except.pure_eq_ok.mp hs
    exact (execute_eq_ok ht).trans ih

theorem length_number : (number m ds).length = ds.length := by
  induction ds generalizing m
  case nil          => rfl
  case cons d ds ih => rw [number, List.length_cons, ih, List.length_cons]

end Inserts

namespace Platform

variable {p : Platform} {legacy : LegacyDb} {r r' : ConversionReport} {t t' : Tables}

theorem length_orderBy : (p.orderBy table keys rows).length = rows.length :=
  (p.orderBy_perm table keys rows).length_eq

theorem convertCharacters_eq_ok (h : p.convertCharacters legacy r t = .ok (r', t', ids)) :
    ∃ cs, characters.Grown cs t t' ∧
      Tallied (some .characters) cs.length (legacy.table "characters").rows.length r r' := by
  rw [convertCharacters] at h
  have ⟨_, _, h⟩ := Except.bind_eq_ok.mp h
  have ⟨hfold, ht⟩ := eachRow_eq_ok counting_characters h
  rw [length_orderBy] at ht
  exact ⟨_, foldlM_executeNoting hfold, ht⟩

theorem convertChats_eq_ok (h : p.convertChats legacy characterIds r t = .ok (r', t', ids)) :
    ∃ cs, chats.Grown cs t t' ∧
      Tallied (some .chats) cs.length (legacy.table "chats").rows.length r r' := by
  rw [convertChats] at h
  have ⟨_, _, h⟩ := Except.bind_eq_ok.mp h
  have ⟨hfold, ht⟩ := eachRow_eq_ok counting_chats h
  rw [length_orderBy] at ht
  exact ⟨_, foldlM_executeNoting hfold, ht⟩

variable (p legacy) in
-- The drafts that the messages of the source give.
def drafts (chatIds : List String) : List Draft :=
  recordsOf (messageColumns (legacy.table "messages").columns)
    (p.readMessage chatIds <| (legacy.table "messages").columns.contains "sequence")
    (p.orderBy "messages" (messageOrder (legacy.table "messages").columns)
      (legacy.table "messages").rows)

theorem convertMessages_eq_ok (h : p.convertMessages legacy chatIds r t = .ok (r', t', m)) :
    messages.Grown (number [] <| p.drafts legacy chatIds) t t' ∧
      Tallied (some .messages) (p.drafts legacy chatIds).length
        (legacy.table "messages").rows.length r r' := by
  rw [convertMessages] at h
  have ⟨_, _, h⟩ := Except.bind_eq_ok.mp h
  have ⟨hfold, ht⟩ := eachRow_eq_ok counting_messages h
  rw [length_orderBy] at ht
  exact ⟨foldlM_executeNumbering hfold, ht⟩

theorem convertPresets_eq_ok (h : p.convertPresets legacy r t = .ok (r', t')) :
    ∃ rows, presets.Grown rows t t' ∧
      Tallied (some .presets) rows.length (legacy.table "presets").rows.length r r' := by
  rw [convertPresets] at h
  have ⟨_, _, h⟩ := Except.bind_eq_ok.mp h
  have ⟨hfold, ht⟩ := eachRow_eq_ok counting_presets h
  rw [length_orderBy] at ht
  exact ⟨_, foldlM_execute hfold, ht⟩

variable (p legacy) in
-- The lore entries that the source gives, with the lorebooks they belong to.
def loreEntries : List (String × ExportLoreEntry) :=
  recordsOf (entryColumns (legacy.table "lore_entries").columns) p.readEntry
    (p.orderBy "lore_entries" (entryOrder (legacy.table "lore_entries").columns)
      (legacy.table "lore_entries").rows)

theorem readLoreEntries_eq_ok (h : p.readLoreEntries legacy r = .ok (r', byBook)) :
    byBook = (p.loreEntries legacy).foldl Assoc.push [] ∧
      Tallied none (p.loreEntries legacy).length (legacy.table "lore_entries").rows.length r r' := by
  rw [readLoreEntries] at h
  have ⟨_, _, h⟩ := Except.bind_eq_ok.mp h
  have ⟨hfold, ht⟩ := eachRow_eq_ok counting_none h
  rw [length_orderBy] at ht
  exact ⟨Except.foldlM_pure_eq_ok hfold, ht⟩

variable (r) in
theorem foldl_skipEntries (ids : List String) (gs : List (String × List ExportLoreEntry)) :
    (gs.foldl (skipEntries ids) r).skipped =
        r.skipped + ((gs.filter (!ids.contains ·.fst)).map (·.snd.length)).sum ∧
      ∀ k, (gs.foldl (skipEntries ids) r).inserted k = r.inserted k := by
  induction gs generalizing r
  case nil => exact ⟨rfl, fun _ => rfl⟩
  case cons g gs ih =>
    have ⟨hskipped, hinserted⟩ := ih (skipEntries ids r g)
    rw [List.foldl_cons]
    constructor
    case left =>
      rw [hskipped, List.filter_cons, skipEntries]
      cases hg : ids.contains g.fst
      case true  => simp only [if_true, Bool.not_true, Bool.false_eq_true, if_false]
      case false =>
        simp only [Bool.not_false, if_true, Bool.false_eq_true, if_false, List.map_cons,
          List.sum_cons]
        omega
    case right =>
      intro k
      rw [hinserted, skipEntries]
      split
      case isTrue  => rfl
      case isFalse => cases k <;> rfl

theorem foldlM_insertBook {byBook : List (String × List ExportLoreEntry)} {books : List Book}
    {s s' : ConversionReport × Tables} (h : books.foldlM (insertBook byBook) s = .ok s') :
    lorebooks.Grown (books.map fun b => b.filled <| Assoc.group byBook b.id) s.snd s'.snd ∧
      Tallied (some .lorebooks) books.length books.length s.fst s'.fst := by
  refine Except.foldlM_induction (f := insertBook byBook) (motive := fun books s s' =>
    lorebooks.Grown (books.map fun b => b.filled <| Assoc.group byBook b.id) s.snd s'.snd ∧
      Tallied (some .lorebooks) books.length books.length s.fst s'.fst) ?_ ?_ h
  case refine_1 =>
    exact fun s => ⟨.refl lorebooks s.snd, Nat.le_refl _, rfl, fun _ => (ite_self 0).symm ▸ rfl⟩
  case refine_2 =>
    intro b books s s' s'' hb ⟨hgrown, ht⟩
    have ⟨t, hexec, hs⟩ := Except.bind_eq_ok.mp hb
    cases Except.pure_eq_ok.mp hs
    refine ⟨(execute_eq_ok hexec).trans hgrown, Nat.le_refl _, ?_, ?_⟩
    case refine_1 =>
      have := ht.skipped
      rw [counting_lorebooks.skipped s.fst] at this
      rw [List.length_cons]
      omega
    case refine_2 =>
      intro k
      rw [ht.inserted k, counting_lorebooks.inserted s.fst k]
      split
      case isTrue  => rw [List.length_cons]; omega
      case isFalse => rfl

theorem foldl_concat {α : Type} {as bs : List α} : as.foldl (fun bs a => bs ++ [a]) bs = bs ++ as := by
  induction as generalizing bs
  case nil          => exact (List.append_nil bs).symm
  case cons a as ih => rw [List.foldl_cons, ih, List.append_assoc, List.singleton_append]

-- The entries of the lorebook `id`.
def entriesOf (es : List (String × ExportLoreEntry)) (id : String) : List ExportLoreEntry :=
  (es.filter (·.fst = id)).map (·.snd)

theorem skipped_entries {ids : List String} {es : List (String × ExportLoreEntry)} :
    (((p.iterate (es.foldl Assoc.push [])).filter (!ids.contains ·.fst)).map (·.snd.length)).sum =
      es.countP (!ids.contains ·.fst) := by
  have hperm := ((p.iterate_perm (es.foldl Assoc.push [])).filter (!ids.contains ·.fst)).map
    (·.snd.length)
  have hflat : (Assoc.ungrouped (es.foldl Assoc.push [])).Perm es :=
    Assoc.ungrouped_foldl_push List.nodup_nil
  rw [hperm.sum_nat, Assoc.sum_filter_groups (p := (!ids.contains ·)), hflat.countP_eq]

theorem length_eq_countP_add (ids : List String) (es : List (String × ExportLoreEntry)) :
    es.length = es.countP (·.fst ∈ ids) + es.countP (!ids.contains ·.fst) := by
  simpa using List.length_eq_countP_add_countP (fun e : String × ExportLoreEntry => decide (e.fst ∈ ids))

-- Without a table of entries there are no entries.
theorem entriesByBook_eq_ok (h : p.entriesByBook legacy r = .ok (r', byBook)) :
    byBook = (p.loreEntries legacy).foldl Assoc.push [] ∧
      Tallied none (p.loreEntries legacy).length (legacy.table "lore_entries").rows.length r r' := by
  rw [entriesByBook] at h
  split at h
  case isTrue      => exact readLoreEntries_eq_ok h
  case isFalse hex =>
    have hnone : legacy.tables "lore_entries" = none := by simpa [LegacyDb.tableExists] using hex
    have hrows : (legacy.table "lore_entries").rows = [] := by rw [LegacyDb.table, hnone]; rfl
    have hordered : ∀ keys, p.orderBy "lore_entries" keys [] = [] :=
      fun keys => List.perm_nil.mp <| p.orderBy_perm "lore_entries" keys []
    have hno : p.loreEntries legacy = [] := by
      rw [loreEntries, hrows, hordered]
      rfl
    cases Except.pure_eq_ok.mp h
    rw [hno, hrows]
    exact ⟨rfl, Nat.le_refl _, rfl, fun _ => (ite_self 0).symm ▸ rfl⟩

structure Shelved (p : Platform) (legacy : LegacyDb) (books : List Book) (r r' : ConversionReport)
    (t t' : Tables) : Prop where
  grown    : lorebooks.Grown (books.map fun b => b.filled <| entriesOf (p.loreEntries legacy) b.id) t t'
  le       : books.length ≤ (legacy.table "lorebooks").rows.length
  skipped  : r'.skipped + books.length +
      (p.loreEntries legacy).countP (·.fst ∈ books.map (·.id)) =
    r.skipped + (legacy.table "lorebooks").rows.length + (legacy.table "lore_entries").rows.length
  inserted : ∀ k, r'.inserted k = r.inserted k + if some .lorebooks = some k then books.length else 0

theorem convertLorebooks_eq_ok (h : p.convertLorebooks legacy r t = .ok (r', t')) :
    ∃ books, Shelved p legacy books r r' t t' := by
  rw [convertLorebooks] at h
  have ⟨_, _, h⟩ := Except.bind_eq_ok.mp h
  have ⟨⟨r₁, books⟩, hbooks, h⟩ := Except.bind_eq_ok.mp h
  have ⟨⟨r₂, byBook⟩, hentries, h⟩ := Except.bind_eq_ok.mp h
  have ⟨hfold, ht₁⟩ := eachRow_eq_ok counting_none hbooks
  have hb := Except.foldlM_pure_eq_ok hfold
  rw [foldl_concat, List.nil_append] at hb
  rw [← hb, length_orderBy] at ht₁
  obtain ⟨rfl, ht₂⟩ := entriesByBook_eq_ok hentries
  have ⟨hgrown, ht₃⟩ := foldlM_insertBook h
  have ⟨hskipped, hinserted⟩ := foldl_skipEntries r₂ (books.map (·.id))
    (p.iterate <| (p.loreEntries legacy).foldl Assoc.push [])
  refine ⟨books, ?_, ht₁.le, ?_, ?_⟩
  case refine_1 =>
    have hgroup : ∀ id, Assoc.group ((p.loreEntries legacy).foldl Assoc.push []) id =
        entriesOf (p.loreEntries legacy) id := by
      intro id
      rw [Assoc.group_foldl_push]
      rfl
    simpa only [hgroup] using hgrown
  case refine_2 =>
    have h₁ := ht₁.skipped
    have h₂ := ht₂.skipped
    have h₃ := ht₃.skipped
    rw [skipped_entries] at hskipped
    have hall := length_eq_countP_add (books.map (·.id)) (p.loreEntries legacy)
    dsimp only at h₁ h₂ h₃ hskipped hall ⊢
    omega
  case refine_3 =>
    intro k
    rw [ht₃.inserted k, hinserted k, ht₂.inserted k, ht₁.inserted k]
    rfl

-- The message comes from the row.
structure Gives (p : Platform) (row : Row) (m : MessageRow) : Prop where
  id        : row "id" = .text m.id
  chatId    : row "chat_id" = .text m.chatId
  content   : row "content" = .text m.content
  createdAt : ∃ i, row "created_at" = .integer i ∧ p.rfc3339 i = some m.createdAt

-- The order by `created_at`, then `id`.
def Before (p : Platform) (a b : Row) : Prop :=
  ∃ i j, a "created_at" = .integer i ∧ b "created_at" = .integer j ∧
    (i < j ∨ i = j ∧ p.le "messages" "id" (a "id") (b "id"))

-- The messages of a chat come from rows of the source in their order, and count from 0.
structure Numbered (p : Platform) (rows : List Row) (chat : List MessageRow) : Prop where
  sources   : ∃ sources : List Row, sources.Subperm rows ∧ List.Forall₂ p.Gives sources chat ∧
    sources.Pairwise p.Before
  sequences : chat.map (·.sequence) = (List.range chat.length).map Int.ofNat

theorem cells_eq_some (h : cells selected row name = some v) : row name = v := by
  rw [cells] at h
  split at h
  case isTrue  => exact Option.some.inj h
  case isFalse => cases h

theorem asText_eq_some {v : Option Value} (h : asText v = some s) : v = some (.text s) := by
  rw [asText.eq_def] at h
  split at h
  case h_1 => rw [Option.some.inj h]
  case h_2 => cases h

theorem asI64_eq_some {v : Option Value} (h : asI64 v = some i) : v = some (.integer i) := by
  rw [asI64.eq_def] at h
  split at h
  case h_1 => rw [Option.some.inj h]
  case h_2 => cases h

theorem readMessage_eq_ok {get : Cells} (h : p.readMessage chatIds false get = .ok d) :
    get "id" = some (.text d.id) ∧ get "chat_id" = some (.text d.chatId) ∧
      get "content" = some (.text d.content) ∧
      p.msToRfc3339Checked (get "created_at") = some d.createdAt ∧ d.sequence = none := by
  rw [readMessage] at h
  split at h
  case h_2 => cases h
  case h_1 id hid =>
    split at h
    case h_2 => cases h
    case h_1 chatId hchat =>
      have ⟨_, h⟩ := Except.guard_eq_ok.mp h
      split at h
      case h_2 => cases h
      case h_1 content hcontent =>
        split at h
        case h_2 => cases h
        case h_1 createdAt hcreated =>
          cases Except.pure_eq_ok.mp h
          exact ⟨asText_eq_some hid, asText_eq_some hchat, asText_eq_some hcontent, hcreated, rfl⟩

theorem gives_of_readMessage (h : p.readMessage chatIds false (cells selected row) = .ok d) (n : Int) :
    p.Gives row (d.numbered n) := by
  have ⟨hid, hchat, hcontent, hcreated, _⟩ := readMessage_eq_ok h
  constructor
  case id      => exact cells_eq_some hid
  case chatId  => exact cells_eq_some hchat
  case content => exact cells_eq_some hcontent
  case createdAt =>
    have ⟨i, hi, hrfc⟩ := Option.bind_eq_some_iff.mp hcreated
    exact ⟨i, cells_eq_some <| asI64_eq_some hi, hrfc⟩

-- A chat's messages are numbered from the counter of the chat on.
theorem number_filter {k : Nat} (hds : ∀ d ∈ ds, d.sequence = none)
    (hk : (Assoc.get m c).getD 0 = (k : Int)) :
    (number m ds).filter (·.chatId = c) =
      ((ds.filter (·.chatId = c)).zipIdx k).map fun e => e.fst.numbered e.snd := by
  induction ds generalizing m k
  case nil => rfl
  case cons d ds ih =>
    have hrest : ∀ d ∈ ds, d.sequence = none := fun d hd => hds d <| List.mem_cons_of_mem _ hd
    have htake : d.take m = ((Assoc.get m d.chatId).getD 0,
        Assoc.set m d.chatId ((Assoc.get m d.chatId).getD 0 + 1)) := by
      rw [Draft.take, hds d List.mem_cons_self]
    have hchat : ∀ n, (d.numbered n).chatId = d.chatId := fun _ => rfl
    rw [number, htake]
    by_cases hc : d.chatId = c
    case pos =>
      have hnext : (Assoc.get (Assoc.set m d.chatId ((Assoc.get m d.chatId).getD 0 + 1)) c).getD 0 =
          ((k + 1 : Nat) : Int) := by
        rw [hc, Assoc.get_set_self, Option.getD_some, hk]
        rfl
      simp only [List.filter_cons, hchat, hc, decide_true, if_true] at hnext ⊢
      rw [ih hrest hnext, List.zipIdx_cons, List.map_cons, hk]
    case neg =>
      have hnext : (Assoc.get (Assoc.set m d.chatId ((Assoc.get m d.chatId).getD 0 + 1)) c).getD 0 =
          (k : Int) := by
        rw [Assoc.get_set_of_ne (Ne.symm hc), hk]
      simp only [List.filter_cons, hchat, hc, decide_false, Bool.false_eq_true, if_false]
      exact ih hrest hnext

theorem forall₂_numbered {selected : List String} {rows : List Row} {ds : List Draft}
    (h : List.Forall₂
      (fun row d => (p.readMessage chatIds false (cells selected row)).toOption = some d) rows ds) :
    List.Forall₂ p.Gives rows ((ds.zipIdx k).map fun e => e.fst.numbered e.snd) := by
  induction h generalizing k
  case nil => exact .nil
  case cons row d rows ds hd _ ih =>
    rw [List.zipIdx_cons, List.map_cons]
    exact .cons (gives_of_readMessage (Except.toOption_eq_some_iff.mp hd) k) ih

-- Within a chat the order of the query is the one by `created_at` and `id`.
theorem before_of_orderedBy {a b : Row} {m m' : MessageRow} (ha : p.Gives a m) (hb : p.Gives b m')
    (hc : m.chatId = m'.chatId)
    (h : orderedBy (p.le "messages") ["chat_id", "created_at", "id"] a b) : p.Before a b := by
  have ⟨i, hi, _⟩ := ha.createdAt
  have ⟨j, hj, _⟩ := hb.createdAt
  refine ⟨i, j, hi, hj, ?_⟩
  simp only [orderedBy, ha.chatId, hb.chatId, hc, p.le_refl, hi, hj, p.le_integer, Bool.true_and,
    Bool.not_true, Bool.false_or, Bool.and_eq_true, Bool.or_eq_true, Bool.not_eq_true',
    decide_eq_true_eq, decide_eq_false_iff_not] at h
  have ⟨hle, h⟩ := h
  cases h
  case inl hlt => exact .inl <| by omega
  case inr hid =>
    by_cases heq : i = j
    case pos => exact .inr ⟨heq, hid.left⟩
    case neg => exact .inl <| by omega

theorem numbered_drafts (hseq : (legacy.table "messages").columns.contains "sequence" = false)
    (chatIds : List String) (c : String) :
    p.Numbered (legacy.table "messages").rows
      ((number [] <| p.drafts legacy chatIds).filter (·.chatId = c)) := by
  let selected := messageColumns (legacy.table "messages").columns
  let read := p.readMessage chatIds false
  let rows := p.orderBy "messages" ["chat_id", "created_at", "id"] (legacy.table "messages").rows
  have hdrafts : p.drafts legacy chatIds = recordsOf selected read rows := by
    rw [drafts, messageOrder, hseq, if_neg Bool.false_ne_true]
  have hnone : ∀ d ∈ recordsOf selected read rows, d.sequence = none := by
    intro d hd
    have ⟨row, _, hread⟩ := List.mem_filterMap.mp hd
    exact (readMessage_eq_ok <| Except.toOption_eq_some_iff.mp hread).right.right.right.right
  rw [hdrafts, number_filter (k := 0) hnone rfl]
  have hgives := forall₂_numbered (k := 0) <| Lists.forall₂_filterMap
    (fun row => (read <| cells selected row).toOption) (fun d => decide (d.chatId = c)) rows
  constructor
  case sources =>
    refine ⟨_, ?_, hgives, ?_⟩
    case refine_1 => exact List.filter_sublist.subperm.trans (p.orderBy_perm ..).subperm
    case refine_2 =>
      have hsorted := (p.orderBy_sorted "messages" ["chat_id", "created_at", "id"]
        (legacy.table "messages").rows).sublist (List.filter_sublist (p := fun row =>
          (read <| cells selected row).toOption.any fun d => decide (d.chatId = c)))
      refine hsorted.imp_of_mem fun {a b} ha hb h => ?_
      have hof : ∀ {row}, row ∈ rows.filter (fun row =>
          (read <| cells selected row).toOption.any fun d => decide (d.chatId = c)) →
          ∃ m, p.Gives row m ∧ m.chatId = c := by
        intro row hrow
        have ⟨d, hd, hc⟩ := Option.any_eq_true _ _ |>.mp (List.mem_filter.mp hrow).right
        exact ⟨d.numbered 0, gives_of_readMessage (Except.toOption_eq_some_iff.mp hd) 0,
          of_decide_eq_true hc⟩
      have ⟨m, hm, hc⟩ := hof ha
      have ⟨m', hm', hc'⟩ := hof hb
      exact before_of_orderedBy hm hm' (hc.trans hc'.symm) h
  case sequences =>
    rw [List.length_map, List.length_zipIdx, List.map_map, List.range_eq_range', ← List.zipIdx_map_snd,
      List.map_map]
    rfl

end Platform

end Storage.Product.Legacy
