import NeoTavern.Lib.Proc
import NeoTavern.Lib.Table
import NeoTavern.Wire.Dto

namespace Storage

open Wire

inductive StorageErrorCode
  | io
  | dataRootInUse
  | baselineViolation
  | unsupportedStorageFormat
  | schemaTooNew
  | schemaTooOld
  | migrationChecksumMismatch
  | migrationFailed
  | corrupt
  | recoveryRequired
  | busy
  | diskFull
  | invalidAssetKey
  | assetNotFound
  | quotaExceeded
  | notFound
  | conflict
  | integrityViolation
  deriving DecidableEq

structure StorageError where
  code    : StorageErrorCode
  message : String
  params  : List (String × String) := []
  deriving DecidableEq

-- The classes of SQLite failures that the storage layer tells apart.
inductive SqliteFailure
  | busy
  | full
  | constraint
  | other
  deriving DecidableEq

namespace StorageError

def classify : SqliteFailure → StorageErrorCode
  | .busy               => .busy
  | .full               => .diskFull
  | .constraint | .other => .io

def fromSqlite (f : SqliteFailure) (context : String) : StorageError where
  code    := classify f
  message := context
  params  := [("context", context)]

end StorageError

structure CharacterRow where
  id            : String
  name          : String
  description   : Option String
  avatarAssetId : Option String
  tags          : List String
  createdAt     : String
  updatedAt     : String
  deriving DecidableEq

structure ChatRow where
  id          : String
  title       : String
  characterId : String
  createdAt   : String
  updatedAt   : String
  deriving DecidableEq

structure MessageRow where
  id              : String
  chatId          : String
  role            : MessageRole
  content         : String
  sequence        : Int
  generationRunId : Option String
  createdAt       : String
  deriving DecidableEq

-- The JSON object in `request_snapshot_json`.
structure RequestSnapshot where
  chatId   : String
  message  : String
  provider : Option String
  model    : Option String
  deriving DecidableEq

structure RunRow where
  runId             : String
  sourceRunId       : Option String
  chatId            : String
  attempt           : Int
  status            : GenerationStatus
  provider          : Option String
  model             : Option String
  requestSnapshot   : RequestSnapshot
  revision          : Int
  cancelRequested   : Bool
  lastEventSequence : Int
  partialLength     : Int
  error             : Option ErrorDto
  messageId         : Option String
  leaseOwner        : Option String
  leaseExpiresAt    : Option String
  startedAt         : String
  updatedAt         : String
  deriving DecidableEq

-- What a run was created with. No statement changes it.
structure RunPlan where
  sourceRunId     : Option String
  chatId          : String
  attempt         : Int
  provider        : Option String
  model           : Option String
  requestSnapshot : RequestSnapshot
  deriving DecidableEq

def RunRow.plan (r : RunRow) : RunPlan where
  sourceRunId     := r.sourceRunId
  chatId          := r.chatId
  attempt         := r.attempt
  provider        := r.provider
  model           := r.model
  requestSnapshot := r.requestSnapshot

-- A `generation_events` row. `payload` is the event that `payload_json` encodes.
structure EventRow where
  runId     : String
  sequence  : Int
  type      : EventType
  payload   : GenerationEvent
  createdAt : String
  deriving DecidableEq

-- The tables that the generation and character operations read and write.
@[ext]
structure Db where
  characters : Table String CharacterRow (·.id)
  chats      : Table String ChatRow (·.id)
  messages   : Table String MessageRow (·.id)
  runs       : Table String RunRow (·.runId)
  events     : Table (String × Int) EventRow (fun e => (e.runId, e.sequence))

namespace Db

def empty : Db where
  characters := .empty
  chats      := .empty
  messages   := .empty
  runs       := .empty
  events     := .empty

-- The events of a run. Rows stand in insertion order.
def eventsOf (db : Db) (runId : String) : List EventRow :=
  db.events.rows.filter (·.runId = runId)

-- `SELECT payload_json … WHERE run_id = ? AND type = 'generation.delta' ORDER BY sequence`.
def deltaPayloads (db : Db) (runId : String) : List GenerationEvent :=
  (db.eventsOf runId).filter (·.type = .delta) |>.mergeSort (·.sequence ≤ ·.sequence)
    |>.map (·.payload)

-- `SELECT COALESCE(MAX(sequence), -1) + 1 FROM messages WHERE chat_id = ?`.
def nextMessageSequence (db : Db) (chatId : String) : Int :=
  ((db.messages.rows.filter (·.chatId = chatId)).map (·.sequence)).foldl max (-1) + 1

-- The chats of a deleted character go with it, with them their messages and runs, and with those
-- their events.
def dropCharacter (db : Db) (characterId : String) : Db :=
  let chats := db.chats.rows.filter (·.characterId = characterId) |>.map (·.id)
  let runs  := db.runs.rows.filter (chats.contains ·.chatId) |>.map (·.runId)
  {
    characters := db.characters.delete (·.id = characterId)
    chats      := db.chats.delete (·.characterId = characterId)
    messages   := db.messages.delete (chats.contains ·.chatId)
    runs       := db.runs.delete (chats.contains ·.chatId)
    events     := db.events.delete (runs.contains ·.runId)
  }

end Db

-- The statements of one transaction. A failing statement fails the transaction, which then leaves
-- nothing behind.
abbrev Tx := Proc Db StorageError

namespace Tx

variable (context : String)

def failSqlite (f : SqliteFailure) : Tx α :=
  Proc.fail <| .fromSqlite f context

-- `UPDATE generation_runs SET … WHERE …`, which reports the number of rows it changed.
def updateRuns (p : RunRow → Bool) (set : RunRow → RunRow)
    (hs : ∀ r, (set r).runId = r.runId := by intro _; rfl) : Tx Nat := do
  let changed ← Proc.gets (·.runs.count p)
  Proc.modify fun db => { db with runs := db.runs.update p set hs }
  return changed

-- `UPDATE generation_runs SET … WHERE id = ? AND revision = ?`.
def casRun (runId : String) (revision : Int) (set : RunRow → RunRow)
    (hs : ∀ r, (set r).runId = r.runId := by intro _; rfl) : Tx Nat :=
  updateRuns (fun r => r.runId = runId && r.revision = revision) set hs

def insertRun (r : RunRow) : Tx Unit := fun db =>
  if (db.chats.get? r.chatId).isNone ∨ r.sourceRunId.any (db.runs.get? · |>.isNone) then
    failSqlite context .constraint db
  else
    match db.runs.insert? r with
    | none      => failSqlite context .constraint db
    | some runs => (.ok (), { db with runs })

def insertEvent (e : EventRow) : Tx Unit := fun db =>
  if (db.runs.get? e.runId).isNone then
    failSqlite context .constraint db
  else
    match db.events.insert? e with
    | none        => failSqlite context .constraint db
    | some events => (.ok (), { db with events })

def insertMessage (m : MessageRow) : Tx Unit := fun db =>
  if (db.chats.get? m.chatId).isNone then
    failSqlite context .constraint db
  else
    match db.messages.insert? m with
    | none          => failSqlite context .constraint db
    | some messages => (.ok (), { db with messages })

-- `DELETE FROM generation_events WHERE run_id = ?`.
def deleteEvents (runId : String) : Tx Unit :=
  Proc.modify fun db => { db with events := db.events.delete (·.runId = runId) }

def insertCharacter (c : CharacterRow) : Tx Unit := fun db =>
  match db.characters.insert? c with
  | none            => failSqlite context .constraint db
  | some characters => (.ok (), { db with characters })

def updateCharacters (p : CharacterRow → Bool) (set : CharacterRow → CharacterRow)
    (hs : ∀ c, (set c).id = c.id := by intro _; rfl) : Tx Nat := do
  let changed ← Proc.gets (·.characters.count p)
  Proc.modify fun db => { db with characters := db.characters.update p set hs }
  return changed

-- `DELETE FROM characters WHERE id = ?`. A run that outlives its source run breaks a foreign key.
def deleteCharacter (characterId : String) : Tx Nat := fun db =>
  let changed := db.characters.count (·.id = characterId)
  if changed = 0 then
    (.ok 0, db)
  else
    let db' := db.dropCharacter characterId
    if db'.runs.rows.any fun r => r.sourceRunId.any (db'.runs.get? · |>.isNone) then
      failSqlite context .constraint db
    else
      (.ok changed, db')

end Tx
end Storage

namespace Storage

open Wire Proc

namespace Db

-- What foreign keys, the requests and the writers of the log see to.
structure Consistent (db : Db) : Prop where
  owner : ∀ e ∈ db.events, (db.runs.get? e.runId).isSome
  type  : ∀ e ∈ db.events, e.type = e.payload.type
  chat  : ∀ r ∈ db.runs, isUuid r.chatId

-- The run and its events are the same in both databases.
structure Same (db db' : Db) (runId : String) : Prop where
  row    : db'.runs.get? runId = db.runs.get? runId
  events : db'.eventsOf runId = db.eventsOf runId

theorem Same.refl (db : Db) (runId : String) : Same db db runId :=
  ⟨rfl, rfl⟩

theorem mem_eventsOf {db : Db} : e ∈ db.eventsOf runId ↔ e ∈ db.events ∧ e.runId = runId := by
  simp [eventsOf, Table.mem_def]

-- Without a run there are no events of it.
theorem Consistent.eventsOf_nil {db : Db} (h : db.Consistent) (hr : db.runs.get? runId = none) :
    db.eventsOf runId = [] := by
  by_contra hn
  have ⟨e, he⟩ := List.exists_mem_of_ne_nil _ hn
  have ⟨he, hi⟩ := mem_eventsOf.mp he
  have := h.owner e he
  simp [hi, hr] at this

-- `db'` comes from `db` by giving the run `r` the row `r'` and the events `es`, and by inserting the
-- messages `ms`.
structure Writes (db db' : Db) (r r' : RunRow) (es : List EventRow) (ms : List MessageRow) :
    Prop where
  id         : r'.runId = r.runId
  plan       : r'.plan = r.plan
  row        : db.runs.get? r.runId = some r
  row'       : db'.runs.get? r.runId = some r'
  events     : db'.eventsOf r.runId = es
  messages   : db'.messages.rows = db.messages.rows ++ ms
  chats      : db'.chats = db.chats
  others     : ∀ i ≠ r.runId, Same db db' i
  consistent : db.Consistent → db'.Consistent

end Db

namespace Tx

variable {db db₀ : Db}

-- A statement that fails rolls its transaction back, so only success counts.
abbrev Ensures (p : Tx α) (Q : α → Db → Prop) (db : Db) : Prop :=
  wp p Q (fun _ _ => True) db

section CasRun

variable {id : String} {rev : Int} {set : RunRow → RunRow} {hs : ∀ r, (set r).runId = r.runId}

theorem casRun_writes (hr : db.runs.get? id = some r) (hv : r.revision = rev)
    (hp : ∀ r, (set r).plan = r.plan) :
    db.Writes { db with runs := db.runs.update (fun r => r.runId = id && r.revision = rev) set hs }
      r (set r) (db.eventsOf id) [] := by
  have hi := Table.get?_key_eq hr
  subst hi hv
  constructor
  case id     => exact hs r
  case plan   => exact hp r
  case row    => exact hr
  case row'   => simp [Table.get?_update, hr]
  case events => rfl
  case messages => simp
  case chats => rfl
  case others =>
    intro i hi
    refine ⟨?_, rfl⟩
    simp only [Table.get?_update]
    cases hg : db.runs.get? i
    case none => rfl
    case some r' =>
      have := Table.get?_key_eq hg
      simp [this, hi]
  case consistent =>
    intro h
    refine ⟨fun e he => ?_, h.type, fun r' hm => ?_⟩
    · simp [Table.get?_update, h.owner e he]
    · rw [Table.mem_update] at hm
      obtain ⟨r, hm, he⟩ := hm
      have hu := h.chat r hm
      split at he
      · rwa [← he, show (set r).chatId = r.chatId from congrArg RunPlan.chatId (hp r)]
      · rwa [← he]

-- A compare-and-swap hits the row it was computed from, or misses and changes nothing.
theorem wp_casRun {Q : Nat → Db → Prop} (hp : ∀ r, (set r).plan = r.plan)
    (miss : (∀ r, db.runs.get? id = some r → r.revision ≠ rev) → Q 0 db)
    (hit : ∀ r db', db.runs.get? id = some r → r.revision = rev →
      db.Writes db' r (set r) (db.eventsOf id) [] → Q 1 db') :
    Ensures (casRun id rev set hs) Q db := by
  simp only [casRun, updateRuns, wp_bind, wp_gets, wp_modify, wp_pure]
  by_cases h : db.runs.count (fun r => r.runId = id && r.revision = rev) = 0
  case pos =>
    rw [h, Table.update_eq_self h]
    refine miss fun r hr hv => ?_
    obtain ⟨hm, hi⟩ := Table.get?_eq_some_iff.mp hr
    have := Table.count_eq_zero_iff.mp h r hm
    simp_all
  case neg =>
    have hc := Table.count_key (t := db.runs) (k := id) (p := fun r => decide (r.revision = rev))
    rw [hc] at h ⊢
    have ha : (db.runs.get? id).any (fun r => r.revision = rev) := by
      by_contra hn
      exact h <| if_neg hn
    rw [if_pos ha]
    obtain ⟨r, hr, hv⟩ := (Option.any_eq_true _ _).mp ha
    exact hit r _ hr (by simpa using hv) (casRun_writes hr (by simpa using hv) hp)

end CasRun

section Insert

variable {r r' : RunRow} {es : List EventRow} {Q : Unit → Db → Prop}

theorem wp_insertEvent (hw : db₀.Writes db r r' es ms) (he : e.runId = r.runId)
    (ht : e.type = e.payload.type) (ok : ∀ db', db₀.Writes db' r r' (es ++ [e]) ms → Q () db') :
    Ensures (insertEvent context e) Q db := by
  have hr : db.runs.get? e.runId = some r' := he ▸ hw.row'
  cases hi : db.events.insert? e
  case none => simp [wp, insertEvent, hr, hi, failSqlite, Proc.fail]
  case some events =>
    simp only [wp, insertEvent, hr, hi]
    refine ok { db with events } ?_
    have hrows := Table.insert?_rows hi
    constructor
    case id     => exact hw.id
    case plan   => exact hw.plan
    case row    => exact hw.row
    case row'   => exact hw.row'
    case events =>
      simp [Db.eventsOf, hrows, he, ← hw.events]
    case messages => exact hw.messages
    case chats => exact hw.chats
    case others =>
      intro i hn
      refine ⟨(hw.others i hn).row, ?_⟩
      rw [← (hw.others i hn).events]
      simp [Db.eventsOf, hrows, he, hn.symm]
    case consistent =>
      intro h
      have h := hw.consistent h
      constructor
      case owner =>
        intro e' hm
        rcases Table.mem_insert? hi |>.mp hm with hm | rfl
        · exact h.owner e' hm
        · simp [hr]
      case type =>
        intro e' hm
        rcases Table.mem_insert? hi |>.mp hm with hm | rfl
        · exact h.type e' hm
        · exact ht
      case chat => exact h.chat

theorem wp_insertMessage (hw : db₀.Writes db r r' es ms)
    (ok : ∀ db', db₀.Writes db' r r' es (ms ++ [m]) → Q () db') :
    Ensures (insertMessage context m) Q db := by
  by_cases hc : (db.chats.get? m.chatId).isNone
  case pos => simp [wp, insertMessage, hc, failSqlite, Proc.fail]
  case neg =>
    cases hi : db.messages.insert? m
    case none => simp [wp, insertMessage, hc, hi, failSqlite, Proc.fail]
    case some messages =>
      simp only [wp, insertMessage, hc, hi]
      refine ok { db with messages } ?_
      constructor
      case id         => exact hw.id
      case plan       => exact hw.plan
      case row        => exact hw.row
      case row'       => exact hw.row'
      case events     => exact hw.events
      case messages   => simp [Table.insert?_rows hi, hw.messages]
      case chats      => exact hw.chats
      case others     => exact fun i hi => ⟨(hw.others i hi).row, (hw.others i hi).events⟩
      case consistent => exact fun hc =>
        ⟨(hw.consistent hc).owner, (hw.consistent hc).type, (hw.consistent hc).chat⟩

theorem wp_deleteEvents (hw : db₀.Writes db r r' es ms)
    (ok : ∀ db', db₀.Writes db' r r' [] ms → Q () db') :
    Ensures (deleteEvents r.runId) Q db := by
  refine ok _ ?_
  constructor
  case id     => exact hw.id
  case plan   => exact hw.plan
  case row    => exact hw.row
  case row'   => exact hw.row'
  case events => simp [Db.eventsOf]
  case messages => exact hw.messages
  case chats => exact hw.chats
  case others =>
    intro i hn
    refine ⟨(hw.others i hn).row, ?_⟩
    rw [← (hw.others i hn).events]
    simp only [Db.eventsOf, Table.delete_rows, List.filter_filter]
    refine List.filter_congr fun e _ => ?_
    by_cases he : e.runId = i <;> simp [he, hn]
  case consistent =>
    intro h
    have h := hw.consistent h
    constructor
    case owner => exact fun e he => h.owner e (Table.mem_delete.mp he).left
    case type  => exact fun e he => h.type e (Table.mem_delete.mp he).left
    case chat  => exact h.chat

end Insert
end Tx
end Storage
