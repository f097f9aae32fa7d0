import NeoTavern.Lib.Assoc
import NeoTavern.Lib.Proc
import NeoTavern.Storage.Product

namespace Storage.Product

def ExportCharacter.row (c : ExportCharacter) : CharacterRow where
  id            := c.id
  name          := c.name
  description   := c.description
  avatarAssetId := c.avatarAssetId
  tagsJson      := .of c.tags
  extJson       := .of c.ext
  createdAt     := c.createdAt
  updatedAt     := c.updatedAt

def ExportMessage.row (m : ExportMessage) : MessageRow where
  id              := m.id
  chatId          := m.chatId
  role            := m.role
  content         := m.content
  sequence        := m.sequence
  generationRunId := none
  createdAt       := m.createdAt

def ExportLorebook.row (b : ExportLorebook) : LorebookRow where
  id          := b.id
  name        := b.name
  description := b.description
  entriesJson := .of b.entries
  createdAt   := b.createdAt
  updatedAt   := b.updatedAt

def ExportPreset.row (p : ExportPreset) : PresetRow where
  id           := p.id
  name         := p.name
  settingsJson := .of p.settings
  createdAt    := p.createdAt
  updatedAt    := p.updatedAt

inductive DuplicatePolicy
  | reject
  | replace
  | remap
  deriving DecidableEq

-- The records of a container.
structure Container where
  characters : List ExportCharacter
  chats      : List ExportChat
  messages   : List ExportMessage
  lorebooks  : List ExportLorebook
  presets    : List ExportPreset

structure ImportReport where
  inserted : Nat
  updated  : Nat
  skipped  : Nat
  orphans  : List String

-- An import under way: the tables as its transaction sees them, its counters, and how many
-- statements it has run and ids it has drawn.
structure Session where
  tables     : Tables
  inserted   : Nat
  updated    : Nat
  skipped    : Nat
  statements : Nat
  drawn      : Nat

-- Which statements SQLite fails, which ids `uuid_v7` draws, and how a text is printed with `{:?}`.
structure World where
  faults : Nat → Option SqliteFailure
  draws  : Nat → String
  debug  : String → String

namespace Container

def rejectDuplicateIds (sec : String) : (seen ids : List String) → Except StorageError Unit
  | _,    []        => pure ()
  | seen, id :: ids =>
    if seen.contains id then
      throw { code := .corrupt, message := s!"{sec}.ndjson: duplicate record id {id}" }
    else
      rejectDuplicateIds sec (id :: seen) ids

def maxSequence : Nat :=
  2 ^ 63 - 1

def checkMessage (w : World) (m : ExportMessage) : Except StorageError Unit :=
  if !kernelRoles.contains m.role then
    throw { code := .corrupt, message := s!"messages.ndjson: record {m.id} has invalid role {w.debug m.role}" }
  else if m.sequence > maxSequence then
    throw { code := .corrupt, message := s!"messages.ndjson: record {m.id} sequence out of range" }
  else
    pure ()

variable (c : Container)

-- The checks that come before any write.
def validate (w : World) : Except StorageError Unit := do
  rejectDuplicateIds "characters" [] (c.characters.map (·.id))
  rejectDuplicateIds "chats" [] (c.chats.map (·.id))
  rejectDuplicateIds "messages" [] (c.messages.map (·.id))
  rejectDuplicateIds "lorebooks" [] (c.lorebooks.map (·.id))
  rejectDuplicateIds "presets" [] (c.presets.map (·.id))
  c.messages.forM (checkMessage w)

-- References count within the container only.
def hasCharacter (chat : ExportChat) : Bool :=
  (c.characters.map (·.id)).contains chat.characterId

def keptChats : List ExportChat :=
  c.chats.filter c.hasCharacter

def hasChat (m : ExportMessage) : Bool :=
  (c.keptChats.map (·.id)).contains m.chatId

def keptMessages : List ExportMessage :=
  c.messages.filter c.hasChat

def orphans : List String :=
  (c.chats.filter (!c.hasCharacter ·)).map
      (fun chat => s!"chat {chat.id}: references missing character {chat.characterId}") ++
    (c.messages.filter (!c.hasChat ·)).map
      fun m => s!"message {m.id}: references missing chat {m.chatId}"

end Container

abbrev Import := Proc Session StorageError

namespace Import

variable (w : World)

-- A statement on the tables, which SQLite may fail.
def execute (context : String) (statement : Tables → Except SqliteFailure Tables) : Import Unit :=
  fun s =>
    match w.faults s.statements, statement s.tables with
    | some f, _          => (.error <| .fromSqlite f context, { s with statements := s.statements + 1 })
    | none,   .error f   => (.error <| .fromSqlite f context, { s with statements := s.statements + 1 })
    | none,   .ok tables => (.ok (), { s with tables, statements := s.statements + 1 })

def rowExists (sec : Section ρ) (id : String) : Import Bool := fun s =>
  match w.faults s.statements with
  | some f => (.error <| .fromSqlite f "import: probe record", { s with statements := s.statements + 1 })
  | none   => (.ok <| sec.rowExists id s.tables, { s with statements := s.statements + 1 })

def insertRow (sec : Section ρ) (row : ρ) : Import Unit :=
  execute w s!"import: insert {sec.record}" (sec.insert row)

def updateRow (sec : Section ρ) (row : ρ) : Import Unit :=
  execute w s!"import: update {sec.record}" (sec.update row)

def countInserted : Import Unit :=
  Proc.modify fun s => { s with inserted := s.inserted + 1 }

def countUpdated : Import Unit :=
  Proc.modify fun s => { s with updated := s.updated + 1 }

def countSkipped : Import Unit :=
  Proc.modify fun s => { s with skipped := s.skipped + 1 }

def insertCounting (sec : Section ρ) (row : ρ) : Import Unit := do
  insertRow w sec row
  countInserted

def updateCounting (sec : Section ρ) (row : ρ) : Import Unit := do
  updateRow w sec row
  countUpdated

-- One turn of the loops under `Reject`.
def rejectRow (sec : Section ρ) (row : ρ) : Import Unit := do
  let found ← rowExists w sec (sec.key row)
  if found then countSkipped else insertCounting w sec row

-- One turn of the loops under `Replace`.
def replaceRow (sec : Section ρ) (row : ρ) : Import Unit := do
  let found ← rowExists w sec (sec.key row)
  if found then updateCounting w sec row else insertCounting w sec row

def applyReject (c : Container) : Import Unit := do
  (c.characters.map (·.row)).forM (rejectRow w characters)
  c.keptChats.forM (rejectRow w chats)
  (c.keptMessages.map (·.row)).forM (rejectRow w messages)
  (c.lorebooks.map (·.row)).forM (rejectRow w lorebooks)
  (c.presets.map (·.row)).forM (rejectRow w presets)

def applyReplace (c : Container) : Import Unit := do
  (c.characters.map (·.row)).forM (replaceRow w characters)
  c.keptChats.forM (replaceRow w chats)
  (c.keptMessages.map (·.row)).forM (replaceRow w messages)
  (c.lorebooks.map (·.row)).forM (replaceRow w lorebooks)
  (c.presets.map (·.row)).forM (replaceRow w presets)

def uuidV7 : Import String := fun s =>
  (.ok <| w.draws s.drawn, { s with drawn := s.drawn + 1 })

-- `records.iter().map(|r| (r.id, uuid_v7())).collect()`.
def drawIds : List String → Import (List (String × String))
  | []        => pure []
  | id :: ids => do
    let new ← uuidV7 w
    let rest ← drawIds ids
    pure ((id, new) :: rest)

def remapError (why : String) : StorageError where
  code    := .integrityViolation
  message := s!"internal remap error: {why}"

-- The index into the map does not miss: every character has an entry.
def remapCharacter (characterIds : List (String × String)) (c : ExportCharacter) : Import Unit :=
  insertCounting w characters { c with id := (Assoc.get characterIds c.id).getD c.id : ExportCharacter }.row

def remapChat (characterIds chatIds : List (String × String)) (chat : ExportChat) : Import Unit :=
  match Assoc.get characterIds chat.characterId with
  | none                => Proc.fail <| remapError "chat character reference missing"
  | some newCharacterId =>
    insertCounting w chats
      { chat with id := (Assoc.get chatIds chat.id).getD chat.id, characterId := newCharacterId }

def remapMessage (chatIds : List (String × String)) (m : ExportMessage) : Import Unit :=
  match Assoc.get chatIds m.chatId with
  | none           => Proc.fail <| remapError "message chat reference missing"
  | some newChatId => do
    let id ← uuidV7 w
    insertCounting w messages { m with id, chatId := newChatId : ExportMessage }.row

def remapLorebook (b : ExportLorebook) : Import Unit := do
  let id ← uuidV7 w
  insertCounting w lorebooks { b with id : ExportLorebook }.row

def remapPreset (p : ExportPreset) : Import Unit := do
  let id ← uuidV7 w
  insertCounting w presets { p with id : ExportPreset }.row

def applyRemap (c : Container) : Import Unit := do
  let characterIds ← drawIds w (c.characters.map (·.id))
  c.characters.forM (remapCharacter w characterIds)
  let chatIds ← drawIds w (c.keptChats.map (·.id))
  c.keptChats.forM (remapChat w characterIds chatIds)
  c.keptMessages.forM (remapMessage w chatIds)
  c.lorebooks.forM (remapLorebook w)
  c.presets.forM (remapPreset w)

def applyPolicy (policy : DuplicatePolicy) (c : Container) : Import Unit :=
  match policy with
  | .reject  => applyReject w c
  | .replace => applyReplace w c
  | .remap   => applyRemap w c

-- Begins, runs `f`, and commits or rolls back. A commit that fails rolls back too.
def transaction (f : Import α) : Import α := fun s =>
  let begun := { s with statements := s.statements + 1 }
  match w.faults s.statements with
  | some e => (.error <| .fromSqlite e "transaction: begin", begun)
  | none   =>
    match f begun with
    | (.error e, s') => (.error e, { s' with tables := s.tables })
    | (.ok a, s')    =>
      let ended := { s' with statements := s'.statements + 1 }
      match w.faults s'.statements with
      | some e => (.error <| .fromSqlite e "transaction: commit", { ended with tables := s.tables })
      | none   => (.ok a, ended)

end Import

-- `source` is what the verification of the container and the parsing of its records give.
def applyImport (w : World) (source : Except StorageError Container) (policy : DuplicatePolicy)
    (db : Tables) : Except StorageError ImportReport × Tables :=
  match source with
  | .error e => (.error e, db)
  | .ok c    =>
    match c.validate w with
    | .error e => (.error e, db)
    | .ok _    =>
      match Import.transaction w (Import.applyPolicy w policy c) ⟨db, 0, 0, c.orphans.length, 0, 0⟩ with
      | (.error e, s) => (.error e, s.tables)
      | (.ok _, s)    =>
        (.ok {
          inserted := s.inserted
          updated  := s.updated
          skipped  := s.skipped
          orphans  := c.orphans
        }, s.tables)

end Storage.Product

namespace Storage.Product

open Proc

def Section.upsertAll (sec : Section ρ) (rows : List ρ) (t : Table String ρ sec.key) :
    Table String ρ sec.key :=
  rows.foldl (Table.upsert sec.revise sec.key_revise) t

namespace Import

-- A statement that fails rolls the transaction back, so only success counts.
abbrev Ensures (p : Import α) (Q : α → Session → Prop) (s : Session) : Prop :=
  wp p Q (fun _ _ => True) s

-- Of the session, `s'` differs from `s` by the tables, the counters and the statements that ran.
structure Counted (inserted updated skipped : Nat) (s s' : Session) : Prop where
  inserted : s'.inserted = s.inserted + inserted
  updated  : s'.updated = s.updated + updated
  skipped  : s'.skipped = s.skipped + skipped

theorem Counted.refl (s : Session) : Counted 0 0 0 s s :=
  ⟨rfl, rfl, rfl⟩

theorem Counted.trans (h : Counted i u k s s') (h' : Counted i' u' k' s' s'') :
    Counted (i + i') (u + u') (k + k') s s'' where
  inserted := by rw [h'.inserted, h.inserted, Nat.add_assoc]
  updated  := by rw [h'.updated, h.updated, Nat.add_assoc]
  skipped  := by rw [h'.skipped, h.skipped, Nat.add_assoc]

-- The table of a section becomes what `f` makes of it.
structure Merged (sec : Section ρ) (f : Table String ρ sec.key → Table String ρ sec.key)
    (inserted updated skipped : Nat) (s s' : Session) : Prop
    extends Counted inserted updated skipped s s' where
  tables : s'.tables = sec.put s.tables (f <| sec.table s.tables)

-- It does not matter how many statements have run before.
theorem Merged.of_statements {sec : Section ρ} {f : Table String ρ sec.key → Table String ρ sec.key}
    {s s' : Session} {n : Nat} (h : Merged sec f i u k { s with statements := n } s') :
    Merged sec f i u k s s' :=
  ⟨⟨h.inserted, h.updated, h.skipped⟩, h.tables⟩

variable {w : World} {sec : Section ρ} {row : ρ} {s s' : Session}

theorem execute_ensures {statement : Tables → Except SqliteFailure Tables} {Q : Unit → Session → Prop}
    (h : ∀ t, statement s.tables = .ok t → Q () { s with tables := t, statements := s.statements + 1 }) :
    Ensures (execute w context statement) Q s := by
  unfold Ensures wp execute
  cases hf : w.faults s.statements
  case some f => trivial
  case none   =>
    cases ht : statement s.tables
    case error f => trivial
    case ok t    => exact h t ht

theorem rowExists_ensures {id : String} {Q : Bool → Session → Prop}
    (h : Q (sec.rowExists id s.tables) { s with statements := s.statements + 1 }) :
    Ensures (rowExists w sec id) Q s := by
  unfold Ensures wp rowExists
  cases hf : w.faults s.statements
  case some f => trivial
  case none   => exact h

theorem insertCounting_ensures : Ensures (insertCounting w sec row)
    (fun _ s' => (∃ table, (sec.table s.tables).insert? row = some table ∧
      s'.tables = sec.put s.tables table) ∧ sec.admits s.tables row ∧ Counted 1 0 0 s s' ∧
      s'.drawn = s.drawn) s := by
  rw [insertCounting, Ensures, wp_bind]
  apply execute_ensures
  intro t ht
  have ⟨ha, table, hi, heq⟩ := Section.insert_eq_ok ht
  exact ⟨⟨table, hi, heq⟩, ha, ⟨rfl, rfl, rfl⟩, rfl⟩

variable (w sec row) in
theorem insertCounting_merged (f : Table String ρ sec.key → Table String ρ sec.key)
    (hf : ∀ table, (sec.table s.tables).insert? row = some table → f (sec.table s.tables) = table) :
    Ensures (insertCounting w sec row) (fun _ => Merged sec f 1 0 0 s) s := by
  refine wp_mono insertCounting_ensures (fun _ s' h => ?_) fun _ _ _ => trivial
  have ⟨⟨table, hi, heq⟩, _, hcounted, _⟩ := h
  exact ⟨hcounted, by rw [heq, hf table hi]⟩

variable (w sec row) in
theorem updateCounting_merged : Ensures (updateCounting w sec row)
    (fun _ => Merged sec (·.update (sec.key · = sec.key row) (sec.revise row) (sec.key_revise row))
      0 1 0 s) s := by
  rw [updateCounting, Ensures, wp_bind]
  apply execute_ensures
  intro t ht
  exact ⟨⟨rfl, rfl, rfl⟩, Section.update_eq_ok ht⟩

-- What a row adds to a counter when it is present, or when it is not.
def one (b : Bool) : Nat :=
  if b then 1 else 0

theorem rejectRow_ensures : Ensures (rejectRow w sec row)
    (fun _ => Merged sec (·.addAbsent row) (one (!(sec.table s.tables).present row)) 0
      (one ((sec.table s.tables).present row)) s) s := by
  rw [rejectRow, Ensures, wp_bind]
  apply rowExists_ensures
  rw [Section.rowExists_key]
  cases hp : (sec.table s.tables).present row
  case true =>
    refine ⟨⟨rfl, rfl, rfl⟩, ?_⟩
    rw [Table.addAbsent_of_present hp]
    exact (sec.put_table s.tables).symm
  case false =>
    rw [if_neg Bool.false_ne_true]
    have h := insertCounting_merged w sec row (s := { s with statements := s.statements + 1 })
      (·.addAbsent row) fun table hi => Table.addAbsent_of_insert? hi
    exact wp_mono h (fun _ _ h => h.of_statements) fun _ _ _ => trivial

theorem replaceRow_ensures : Ensures (replaceRow w sec row)
    (fun _ => Merged sec (·.upsert sec.revise sec.key_revise row)
      (one (!(sec.table s.tables).present row)) (one ((sec.table s.tables).present row)) 0 s) s := by
  rw [replaceRow, Ensures, wp_bind]
  apply rowExists_ensures
  rw [Section.rowExists_key]
  cases hp : (sec.table s.tables).present row
  case true =>
    rw [if_pos rfl]
    have h := updateCounting_merged w sec row (s := { s with statements := s.statements + 1 })
    refine wp_mono h (fun _ _ h => ⟨h.of_statements.toCounted, ?_⟩) fun _ _ _ => trivial
    rw [h.tables, Table.upsert_of_present hp]
  case false =>
    rw [if_neg Bool.false_ne_true]
    have h := insertCounting_merged w sec row (s := { s with statements := s.statements + 1 })
      (·.upsert sec.revise sec.key_revise row) fun table hi => Table.upsert_of_insert? hi
    exact wp_mono h (fun _ _ h => h.of_statements) fun _ _ _ => trivial

theorem Merged.trans {f g : Table String ρ sec.key → Table String ρ sec.key} {s s' s'' : Session}
    (h : Merged sec f i u k s s') (h' : Merged sec g i' u' k' s' s'') :
    Merged sec (fun t => g (f t)) (i + i') (u + u') (k + k') s s'' := by
  refine ⟨h.toCounted.trans h'.toCounted, ?_⟩
  rw [h'.tables, h.tables, sec.table_put, sec.put_put]

theorem Merged.table {f : Table String ρ sec.key → Table String ρ sec.key}
    (h : Merged sec f i u k s s') : sec.table s'.tables = f (sec.table s.tables) := by
  rw [h.tables, sec.table_put]

theorem sum_one {p : ρ → Bool} {rows : List ρ} :
    (rows.map fun row => one (p row)).sum = rows.countP p := by
  induction rows
  case nil => rfl
  case cons row rows ih => rw [List.map_cons, List.sum_cons, ih, List.countP_cons, one, Nat.add_comm]

theorem sum_zero {rows : List ρ} : (rows.map fun _ => 0).sum = 0 := by
  induction rows
  case nil              => rfl
  case cons row rows ih => rw [List.map_cons, List.sum_cons, ih]

variable {rows : List ρ}

-- Later rows have other keys, so that an earlier one does not change whether they are present.
theorem forM_ensures {turn : ρ → Import Unit}
    {g : Table String ρ sec.key → ρ → Table String ρ sec.key} {i u k : Bool → Nat}
    (hg : ∀ t r r', sec.key r' ≠ sec.key r → (g t r).present r' = t.present r')
    (hturn : ∀ row s, Ensures (turn row) (fun _ => Merged sec (g · row)
      (i <| (sec.table s.tables).present row) (u <| (sec.table s.tables).present row)
      (k <| (sec.table s.tables).present row) s) s)
    (hn : (rows.map sec.key).Nodup) :
    Ensures (rows.forM turn)
      (fun _ => Merged sec (rows.foldl g)
        (rows.map fun row => i <| (sec.table s.tables).present row).sum
        (rows.map fun row => u <| (sec.table s.tables).present row).sum
        (rows.map fun row => k <| (sec.table s.tables).present row).sum s) s := by
  induction rows generalizing s
  case nil => exact ⟨.refl s, (sec.put_table s.tables).symm⟩
  case cons row rows ih =>
    have ⟨hnew, hn⟩ := List.nodup_cons.mp hn
    refine wp_forM_cons.mpr <| wp_mono (hturn row s) (fun _ t ht => ?_) fun _ _ _ => trivial
    refine wp_mono (ih hn) (fun _ _ hrest => ?_) fun _ _ _ => trivial
    have hsame : ∀ n : Bool → Nat, (rows.map fun row => n <| (sec.table t.tables).present row) =
        rows.map fun row => n <| (sec.table s.tables).present row := by
      intro n
      apply List.map_congr_left
      intro r hr
      rw [ht.table, hg _ row r fun he => hnew <| he ▸ List.mem_map_of_mem hr]
    have h := ht.trans hrest
    rw [hsame, hsame, hsame] at h
    exact h

theorem forM_rejectRow_ensures (hn : (rows.map sec.key).Nodup) :
    Ensures (rows.forM (rejectRow w sec))
      (fun _ => Merged sec (rows.foldl Table.addAbsent)
        (rows.countP (!(sec.table s.tables).present ·)) 0
        (rows.countP (sec.table s.tables).present) s) s := by
  have h := forM_ensures (s := s) (i := fun b => one !b) (u := fun _ => 0) (k := one)
    (fun _ _ _ => Table.present_addAbsent) (fun _ _ => rejectRow_ensures (w := w)) hn
  rwa [sum_one, sum_zero, sum_one] at h

theorem forM_replaceRow_ensures (hn : (rows.map sec.key).Nodup) :
    Ensures (rows.forM (replaceRow w sec))
      (fun _ => Merged sec (sec.upsertAll rows)
        (rows.countP (!(sec.table s.tables).present ·))
        (rows.countP (sec.table s.tables).present) 0 s) s := by
  have h := forM_ensures (s := s) (i := fun b => one !b) (u := one) (k := fun _ => 0)
    (fun _ _ _ => Table.present_upsert) (fun _ _ => replaceRow_ensures (w := w)) hn
  rwa [sum_one, sum_one, sum_zero] at h

-- A section whose table becomes what `f` makes of it, with counts that depend on the table.
structure Phase (sec : Section ρ) (p : Import Unit) where
  change   : Table String ρ sec.key → Table String ρ sec.key
  inserted : Table String ρ sec.key → Nat
  updated  : Table String ρ sec.key → Nat
  skipped  : Table String ρ sec.key → Nat
  ensures  : ∀ s, Ensures p (fun _ => Merged sec change (inserted <| sec.table s.tables)
    (updated <| sec.table s.tables) (skipped <| sec.table s.tables) s) s

variable {p₁ p₂ p₃ p₄ p₅ : Import Unit}

-- The sections do not get in each other's way.
theorem phases_ensures (h₁ : Phase characters p₁) (h₂ : Phase chats p₂) (h₃ : Phase messages p₃)
    (h₄ : Phase lorebooks p₄) (h₅ : Phase presets p₅) :
    Ensures (do p₁; p₂; p₃; p₄; p₅) (fun _ s' => s'.tables = {
        characters := h₁.change s.tables.characters
        chats      := h₂.change s.tables.chats
        messages   := h₃.change s.tables.messages
        lorebooks  := h₄.change s.tables.lorebooks
        presets    := h₅.change s.tables.presets } ∧ Counted
      (h₁.inserted s.tables.characters + h₂.inserted s.tables.chats +
        h₃.inserted s.tables.messages + h₄.inserted s.tables.lorebooks + h₅.inserted s.tables.presets)
      (h₁.updated s.tables.characters + h₂.updated s.tables.chats +
        h₃.updated s.tables.messages + h₄.updated s.tables.lorebooks + h₅.updated s.tables.presets)
      (h₁.skipped s.tables.characters + h₂.skipped s.tables.chats +
        h₃.skipped s.tables.messages + h₄.skipped s.tables.lorebooks + h₅.skipped s.tables.presets)
      s s') s := by
  refine wp_bind.mpr <| wp_mono (h₁.ensures s) (fun _ s₁ m₁ => ?_) fun _ _ _ => trivial
  refine wp_bind.mpr <| wp_mono (h₂.ensures s₁) (fun _ s₂ m₂ => ?_) fun _ _ _ => trivial
  refine wp_bind.mpr <| wp_mono (h₃.ensures s₂) (fun _ s₃ m₃ => ?_) fun _ _ _ => trivial
  refine wp_bind.mpr <| wp_mono (h₄.ensures s₃) (fun _ s₄ m₄ => ?_) fun _ _ _ => trivial
  refine wp_mono (h₅.ensures s₄) (fun _ s₅ m₅ => ?_) fun _ _ _ => trivial
  have hchats : chats.table s₁.tables = s.tables.chats := by
    rw [m₁.tables]
    rfl
  have hmessages : messages.table s₂.tables = s.tables.messages := by
    rw [m₂.tables, m₁.tables]
    rfl
  have hlorebooks : lorebooks.table s₃.tables = s.tables.lorebooks := by
    rw [m₃.tables, m₂.tables, m₁.tables]
    rfl
  have hpresets : presets.table s₄.tables = s.tables.presets := by
    rw [m₄.tables, m₃.tables, m₂.tables, m₁.tables]
    rfl
  rw [hchats] at m₂
  rw [hmessages] at m₃
  rw [hlorebooks] at m₄
  rw [hpresets] at m₅
  constructor
  case left =>
    rw [m₅.tables, m₄.tables, m₃.tables, m₂.tables, m₁.tables]
    rfl
  case right =>
    exact (((m₁.toCounted.trans m₂.toCounted).trans m₃.toCounted).trans m₄.toCounted).trans
      m₅.toCounted

def rejectPhase (hn : (rows.map sec.key).Nodup) : Phase sec (rows.forM (rejectRow w sec)) where
  change     := rows.foldl Table.addAbsent
  inserted t := rows.countP (!t.present ·)
  updated _  := 0
  skipped t  := rows.countP t.present
  ensures _  := forM_rejectRow_ensures hn

def replacePhase (hn : (rows.map sec.key).Nodup) : Phase sec (rows.forM (replaceRow w sec)) where
  change     := sec.upsertAll rows
  inserted t := rows.countP (!t.present ·)
  updated t  := rows.countP t.present
  skipped _  := 0
  ensures _  := forM_replaceRow_ensures hn

end Import

namespace Container

-- No two records of a section have the same id.
structure Distinct (c : Container) : Prop where
  characters : (c.characters.map (·.id)).Nodup
  chats      : (c.chats.map (·.id)).Nodup
  messages   : (c.messages.map (·.id)).Nodup
  lorebooks  : (c.lorebooks.map (·.id)).Nodup
  presets    : (c.presets.map (·.id)).Nodup

theorem rejectDuplicateIds_eq_ok (h : rejectDuplicateIds sec seen ids = .ok ()) :
    ids.Nodup ∧ ∀ id ∈ ids, id ∉ seen := by
  induction ids generalizing seen
  case nil => exact ⟨List.nodup_nil, fun _ h => by cases h⟩
  case cons id ids ih =>
    rw [rejectDuplicateIds] at h
    split at h
    case isTrue => cases h
    case isFalse hseen =>
      have ⟨hnodup, hnew⟩ := ih h
      have hid : id ∉ ids := fun hmem => hnew id hmem List.mem_cons_self
      refine ⟨List.nodup_cons.mpr ⟨hid, hnodup⟩, fun id' hmem => ?_⟩
      cases hmem
      case head      => simpa using hseen
      case tail hmem => exact fun hs => hnew id' hmem <| List.mem_cons_of_mem _ hs

variable {c : Container} {w : World}

theorem validate_eq_ok (h : c.validate w = .ok ()) : c.Distinct := by
  have ⟨_, h₁, h⟩ := Except.bind_eq_ok.mp h
  have ⟨_, h₂, h⟩ := Except.bind_eq_ok.mp h
  have ⟨_, h₃, h⟩ := Except.bind_eq_ok.mp h
  have ⟨_, h₄, h⟩ := Except.bind_eq_ok.mp h
  have ⟨_, h₅, _⟩ := Except.bind_eq_ok.mp h
  exact ⟨(rejectDuplicateIds_eq_ok h₁).left, (rejectDuplicateIds_eq_ok h₂).left,
    (rejectDuplicateIds_eq_ok h₃).left, (rejectDuplicateIds_eq_ok h₄).left,
    (rejectDuplicateIds_eq_ok h₅).left⟩

-- The rows of the records that are no orphans.
def characterRows (c : Container) : List CharacterRow :=
  c.characters.map (·.row)

def messageRows (c : Container) : List MessageRow :=
  c.keptMessages.map (·.row)

def lorebookRows (c : Container) : List LorebookRow :=
  c.lorebooks.map (·.row)

def presetRows (c : Container) : List PresetRow :=
  c.presets.map (·.row)

namespace Distinct

variable (h : c.Distinct)

include h

theorem characterRows : (c.characterRows.map (·.id)).Nodup := by
  rw [Container.characterRows, List.map_map]
  exact h.characters

theorem keptChats : (c.keptChats.map (·.id)).Nodup :=
  h.chats.sublist <| List.filter_sublist.map _

theorem keptMessages : (c.keptMessages.map (·.id)).Nodup :=
  h.messages.sublist <| List.filter_sublist.map _

theorem messageRows : (c.messageRows.map (·.id)).Nodup := by
  rw [Container.messageRows, List.map_map]
  exact h.keptMessages

theorem lorebookRows : (c.lorebookRows.map (·.id)).Nodup := by
  rw [Container.lorebookRows, List.map_map]
  exact h.lorebooks

theorem presetRows : (c.presetRows.map (·.id)).Nodup := by
  rw [Container.presetRows, List.map_map]
  exact h.presets

end Distinct

-- How many of these records have an id that the tables have, and how many do not.
def presentIn (c : Container) (t : Tables) : Nat :=
  c.characterRows.countP t.characters.present + c.keptChats.countP t.chats.present +
    c.messageRows.countP t.messages.present + c.lorebookRows.countP t.lorebooks.present +
    c.presetRows.countP t.presets.present

def absentFrom (c : Container) (t : Tables) : Nat :=
  c.characterRows.countP (!t.characters.present ·) + c.keptChats.countP (!t.chats.present ·) +
    c.messageRows.countP (!t.messages.present ·) + c.lorebookRows.countP (!t.lorebooks.present ·) +
    c.presetRows.countP (!t.presets.present ·)

def addedTo (c : Container) (t : Tables) : Tables where
  characters := c.characterRows.foldl Table.addAbsent t.characters
  chats      := c.keptChats.foldl Table.addAbsent t.chats
  messages   := c.messageRows.foldl Table.addAbsent t.messages
  lorebooks  := c.lorebookRows.foldl Table.addAbsent t.lorebooks
  presets    := c.presetRows.foldl Table.addAbsent t.presets

def upsertedInto (c : Container) (t : Tables) : Tables where
  characters := Product.characters.upsertAll c.characterRows t.characters
  chats      := Product.chats.upsertAll c.keptChats t.chats
  messages   := Product.messages.upsertAll c.messageRows t.messages
  lorebooks  := Product.lorebooks.upsertAll c.lorebookRows t.lorebooks
  presets    := Product.presets.upsertAll c.presetRows t.presets

end Container

namespace Import

variable {c : Container} {w : World} {s : Session}

theorem applyReject_ensures (hc : c.Distinct) : Ensures (applyReject w c)
    (fun _ s' => s'.tables = c.addedTo s.tables ∧
      Counted (c.absentFrom s.tables) 0 (c.presentIn s.tables) s s') s :=
  phases_ensures (rejectPhase hc.characterRows) (rejectPhase hc.keptChats)
    (rejectPhase hc.messageRows) (rejectPhase hc.lorebookRows) (rejectPhase hc.presetRows)

theorem applyReplace_ensures (hc : c.Distinct) : Ensures (applyReplace w c)
    (fun _ s' => s'.tables = c.upsertedInto s.tables ∧
      Counted (c.absentFrom s.tables) (c.presentIn s.tables) 0 s s') s :=
  phases_ensures (replacePhase hc.characterRows) (replacePhase hc.keptChats)
    (replacePhase hc.messageRows) (replacePhase hc.lorebookRows) (replacePhase hc.presetRows)

end Import
end Storage.Product
