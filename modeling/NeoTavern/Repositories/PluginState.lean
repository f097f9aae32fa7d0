import NeoTavern.Lib.Table

namespace Repositories.PluginState

inductive PluginStateScope
  | user
  | workspace
  | chat
  | installation
  deriving DecidableEq

-- What a row is found by. A row without an owner is found under the empty one.
structure Cell where
  pluginId : String
  scope    : PluginStateScope
  owner    : String
  deriving DecidableEq

-- The identifiers of the rows are left out: they are drawn anew, so that the row with the identifier
-- of an entry is the row of its cell.
structure StateRow (D : Type) where
  pluginId      : String
  scope         : PluginStateScope
  ownerId       : Option String
  schemaVersion : Int
  revision      : Int
  data          : D
  createdAt     : Int
  updatedAt     : Int
  deriving DecidableEq

def StateRow.cell {D : Type} (r : StateRow D) : Cell where
  pluginId := r.pluginId
  scope    := r.scope
  owner    := r.ownerId.getD ""

abbrev Db (D : Type) := Table Cell (StateRow D) StateRow.cell

structure SetInput (D : Type) where
  pluginId         : String
  scope            : PluginStateScope
  ownerId          : Option String := none
  data             : D
  expectedRevision : Option Int := none

structure RestoreInput (D : Type) where
  pluginId      : String
  scope         : PluginStateScope
  ownerId       : Option String
  schemaVersion : Int
  revision      : Int
  data          : D

-- `failed` is an error that is thrown.
inductive SetResult (D : Type)
  | ok (entry : StateRow D)
  | stale (current : StateRow D)
  | failed
  deriving DecidableEq

variable {D : Type}

def SetInput.cell (input : SetInput D) : Cell where
  pluginId := input.pluginId
  scope    := input.scope
  owner    := input.ownerId.getD ""

def RestoreInput.cell (input : RestoreInput D) : Cell where
  pluginId := input.pluginId
  scope    := input.scope
  owner    := input.ownerId.getD ""

def SetResult.isOk : SetResult D → Bool
  | ok _ => true
  | _    => false

section Statements

variable (db : Db D) (now : Int)

-- The second read of `set`.
def written (db : Db D) (cell : Cell) : SetResult D :=
  match db.get? cell with
  | some entry => .ok entry
  | none       => .failed

def SetInput.row (input : SetInput D) : StateRow D where
  pluginId      := input.pluginId
  scope         := input.scope
  ownerId       := input.ownerId
  schemaVersion := 1
  revision      := 1
  data          := input.data
  createdAt     := now
  updatedAt     := now

def rewrite (data : D) (row : StateRow D) : StateRow D :=
  { row with data, revision := row.revision + 1, updatedAt := now }

theorem cell_rewrite (data : D) (row : StateRow D) : (rewrite now data row).cell = row.cell :=
  rfl

def set (input : SetInput D) : Db D × SetResult D :=
  match db.get? input.cell with
  | some existing =>
    if input.expectedRevision.any (existing.revision ≠ ·) then
      (db, .stale existing)
    else
      let db := db.update (·.cell = input.cell) (rewrite now input.data) (cell_rewrite now input.data)
      (db, written db input.cell)
  | none =>
    match db.insert? (input.row now) with
    | some db => (db, written db input.cell)
    | none    => (db, .failed)

def delete (cell : Cell) : Db D × Bool :=
  (Table.delete db (·.cell = cell), db.count (·.cell = cell) > 0)

def deleteAll (pluginId : String) : Db D × Nat :=
  (Table.delete db (·.pluginId = pluginId), db.count (·.pluginId = pluginId))

def RestoreInput.row (input : RestoreInput D) : StateRow D where
  pluginId      := input.pluginId
  scope         := input.scope
  ownerId       := input.ownerId
  schemaVersion := input.schemaVersion
  revision      := input.revision
  data          := input.data
  createdAt     := now
  updatedAt     := now

def restore (input : RestoreInput D) : Db D × Bool :=
  match db.get? input.cell with
  | some _ => (db, false)
  | none   =>
    match db.insert? (input.row now) with
    | some db => (db, true)
    | none    => (db, false)

end Statements

inductive Event (D : Type)
  | set (input : SetInput D) (now : Int)
  | delete (cell : Cell)
  | deleteAll (pluginId : String)
  | restore (input : RestoreInput D) (now : Int)

namespace Event

variable (db : Db D) (cell : Cell)

def apply : Event D → Db D
  | set input now      => (PluginState.set db now input).fst
  | delete cell        => (PluginState.delete db cell).fst
  | deleteAll pluginId => (PluginState.deleteAll db pluginId).fst
  | restore input now  => (PluginState.restore db now input).fst

-- Whether the event takes the row of the cell away.
def removes : Event D → Bool
  | delete cell'       => cell' = cell && (db.get? cell).isSome
  | deleteAll pluginId => pluginId = cell.pluginId && (db.get? cell).isSome
  | _                  => false

-- Whether the event is a set, a deletion or a restoration of the cell that succeeds.
def touches (e : Event D) : Bool :=
  match e with
  | set input now     => input.cell = cell && (PluginState.set db now input).snd.isOk
  | restore input now => input.cell = cell && (PluginState.restore db now input).snd
  | e                 => e.removes db cell

end Event

def run : (db : Db D) → List (Event D) → Db D
  | db, []      => db
  | db, e :: es => run (e.apply db) es

def Removed (cell : Cell) : (db : Db D) → List (Event D) → Prop
  | _,  []      => False
  | db, e :: es => e.removes db cell ∨ Removed cell (e.apply db) es

def Untouched (cell : Cell) : (db : Db D) → List (Event D) → Prop
  | _,  []      => True
  | db, e :: es => ¬ e.touches db cell ∧ Untouched cell (e.apply db) es

variable {db : Db D} {cell : Cell} {e : Event D} {row : StateRow D} {input : SetInput D} {now : Int}

-- What a call of `set` does: it refuses, writes to the row of its cell, or makes that row.
theorem set_cases (db : Db D) (input : SetInput D) (now : Int) :
    (∃ existing, db.get? input.cell = some existing ∧ input.expectedRevision.any (existing.revision ≠ ·) ∧
      set db now input = (db, .stale existing)) ∨
    (∃ existing db', db.get? input.cell = some existing ∧ ¬ input.expectedRevision.any (existing.revision ≠ ·) ∧
      set db now input = (db', .ok <| rewrite now input.data existing) ∧
      ∀ k, db'.get? k = if k = input.cell then some (rewrite now input.data existing) else db.get? k) ∨
    (∃ db', db.get? input.cell = none ∧ set db now input = (db', .ok <| input.row now) ∧
      ∀ k, db'.get? k = if k = input.cell then some (input.row now) else db.get? k) := by
  cases h : db.get? input.cell
  case some existing =>
    by_cases hstale : input.expectedRevision.any (existing.revision ≠ ·)
    case pos => exact .inl ⟨existing, rfl, hstale, by simp only [set, h, if_pos hstale]⟩
    case neg =>
      let db' := db.update (·.cell = input.cell) (rewrite now input.data) (cell_rewrite now input.data)
      have hget (k : Cell) : db'.get? k = if k = input.cell then some (rewrite now input.data existing)
          else db.get? k := by
        have hget : db'.get? k = (db.get? k).map _ := Table.get?_update
        rw [hget]
        split
        case isTrue hk  => simp [hk, h, Table.get?_key_eq h]
        case isFalse hk =>
          cases hk' : db.get? k
          case none     => rfl
          case some row => simp [Table.get?_key_eq hk', hk]
      refine .inr <| .inl ⟨existing, db', rfl, hstale, ?_, hget⟩
      have hwritten : written db' input.cell = .ok (rewrite now input.data existing) := by
        simp [written, hget]
      simp only [set, h, if_neg hstale]
      exact congrArg (Prod.mk db') hwritten
  case none =>
    obtain ⟨db', hinsert⟩ := Option.isSome_iff_exists.mp <| Table.insert?_isSome_iff (r := input.row now).mpr h
    have hget (k : Cell) : db'.get? k = if k = input.cell then some (input.row now) else db.get? k := by
      rw [Table.get?_insert? hinsert]
      exact if_congr eq_comm rfl rfl
    refine .inr <| .inr ⟨db', rfl, ?_, hget⟩
    have hwritten : written db' input.cell = .ok (input.row now) := by
      simp [written, hget]
    simp [set, h, hinsert, hwritten]

theorem restore_cases (db : Db D) (input : RestoreInput D) (now : Int) :
    ((db.get? input.cell).isSome ∧ restore db now input = (db, false)) ∨
    (db.get? input.cell = none ∧ ∃ db', restore db now input = (db', true) ∧
      ∀ k, db'.get? k = if k = input.cell then some (input.row now) else db.get? k) := by
  cases h : db.get? input.cell
  case some existing => exact .inl ⟨rfl, by simp [restore, h]⟩
  case none =>
    obtain ⟨db', hinsert⟩ := Option.isSome_iff_exists.mp <| Table.insert?_isSome_iff (r := input.row now).mpr h
    refine .inr ⟨rfl, db', by simp [restore, h, hinsert], fun k => ?_⟩
    rw [Table.get?_insert? hinsert]
    exact if_congr eq_comm rfl rfl

-- A row that is not removed keeps its revision only if it stays as it is.
theorem apply_kept (h : db.get? cell = some row) (hr : ¬ e.removes db cell) :
    ∃ row', (e.apply db).get? cell = some row' ∧
      (¬ e.touches db cell ∧ row' = row ∨ e.touches db cell ∧ row.revision < row'.revision) := by
  cases e
  case set input now =>
    simp only [Event.apply, Event.touches]
    cases set_cases db input now
    case inl hset =>
      obtain ⟨existing, _, _, hset⟩ := hset
      exact ⟨row, by simp [hset, h], .inl ⟨by simp [hset, SetResult.isOk], rfl⟩⟩
    case inr hset =>
      cases hset
      case inl hset =>
        obtain ⟨existing, db', hexisting, _, hset, hget⟩ := hset
        by_cases hk : cell = input.cell
        case pos =>
          rw [hk, hexisting] at h
          have he := Option.some.inj h
          have hrevision : row.revision < (rewrite now input.data existing).revision := he ▸ Int.lt_succ _
          exact ⟨rewrite now input.data existing, by simp [hset, hget, hk],
            .inr ⟨by simp [hset, SetResult.isOk, hk], hrevision⟩⟩
        case neg =>
          exact ⟨row, by simp [hset, hget, hk, h], .inl ⟨by simp [Ne.symm hk], rfl⟩⟩
      case inr hset =>
        obtain ⟨db', hnone, hset, hget⟩ := hset
        have hk : cell ≠ input.cell := by
          intro hk
          rw [hk, hnone] at h
          cases h
        exact ⟨row, by simp [hset, hget, hk, h], .inl ⟨by simp [hk.symm], rfl⟩⟩
  case delete cell' =>
    have hk : cell' ≠ cell := by simpa [Event.removes, h] using hr
    have hrow : row.cell ≠ cell' := Table.get?_key_eq h ▸ hk.symm
    have hget : (Table.delete db (·.cell = cell')).get? cell = (db.get? cell).filter _ := Table.get?_delete
    exact ⟨row, by simp [Event.apply, delete, hget, h, hrow], .inl ⟨hr, rfl⟩⟩
  case deleteAll pluginId =>
    have hk : pluginId ≠ cell.pluginId := by simpa [Event.removes, h] using hr
    have hcell : row.pluginId = cell.pluginId := congrArg Cell.pluginId (Table.get?_key_eq h)
    have hrow : row.pluginId ≠ pluginId := fun he => hk <| he.symm.trans hcell
    have hget : (Table.delete db (·.pluginId = pluginId)).get? cell = (db.get? cell).filter _ := Table.get?_delete
    exact ⟨row, by simp [Event.apply, deleteAll, hget, h, hrow], .inl ⟨hr, rfl⟩⟩
  case restore input now =>
    simp only [Event.apply, Event.touches]
    cases restore_cases db input now
    case inl hrestore => exact ⟨row, by simp [hrestore.right, h], .inl ⟨by simp [hrestore.right], rfl⟩⟩
    case inr hrestore =>
      obtain ⟨hnone, db', hrestore, hget⟩ := hrestore
      have hk : cell ≠ input.cell := by
        intro hk
        rw [hk, hnone] at h
        cases h
      exact ⟨row, by simp [hrestore, hget, hk, h], .inl ⟨by simp [hk.symm], rfl⟩⟩

theorem run_kept {es : List (Event D)} (h : db.get? cell = some row) (hr : ¬ Removed cell db es) :
    ∃ row', (run db es).get? cell = some row' ∧
      (Untouched cell db es ∧ row' = row ∨ row.revision < row'.revision) := by
  induction es generalizing db row
  case nil => exact ⟨row, h, .inl ⟨trivial, rfl⟩⟩
  case cons e es ih =>
    have ⟨hremoves, hrest⟩ := not_or.mp hr
    have ⟨row₁, hrow₁, hstep⟩ := apply_kept h hremoves
    have ⟨row₂, hrow₂, hrun⟩ := ih hrow₁ hrest
    refine ⟨row₂, hrow₂, ?_⟩
    cases hstep
    case inl hstep =>
      cases hrun
      case inl hrun => exact .inl ⟨⟨hstep.left, hrun.left⟩, hrun.right.trans hstep.right⟩
      case inr hrun => exact .inr <| hstep.right ▸ hrun
    case inr hstep =>
      cases hrun
      case inl hrun => exact .inr <| hrun.right ▸ hstep.right
      case inr hrun => exact .inr <| Int.lt_trans hstep.right hrun

theorem not_untouched_of_removed {es : List (Event D)} (h : Removed cell db es) : ¬ Untouched cell db es := by
  induction es generalizing db
  case nil => exact fun _ => h
  case cons e es ih =>
    intro hu
    cases h
    case inl h =>
      apply hu.left
      cases e <;> simp_all [Event.touches, Event.removes]
    case inr h => exact ih h hu.right

theorem run_append {before between : List (Event D)} : run db (before ++ between) = run (run db before) between := by
  induction before generalizing db
  case nil          => rfl
  case cons e es ih => exact ih

-- The revision that the next one follows.
def revisionOf (db : Db D) (cell : Cell) : Int :=
  ((db.get? cell).map StateRow.revision).getD 0

theorem isOk_set_iff : (set db now input).snd.isOk ↔
    ∀ current, db.get? input.cell = some current → ∀ r, input.expectedRevision = some r → current.revision = r := by
  obtain ⟨existing, h, hstale, hset⟩ | ⟨existing, _, h, hcurrent, hset, _⟩ | ⟨_, h, hset, _⟩ := set_cases db input now
  case inl =>
    have ⟨r, hr, hne⟩ := Option.any_eq_true _ _ |>.mp hstale
    simp only [hset, SetResult.isOk, Bool.false_eq_true, false_iff]
    exact fun hall => absurd (hall existing h r hr) <| by simpa using hne
  case inr.inl =>
    simp only [hset, SetResult.isOk, true_iff, h, Option.some.injEq]
    intro current he r hr
    simpa [hr, he] using hcurrent
  case inr.inr => simp [hset, SetResult.isOk, h]

theorem revision_of_set {entry : StateRow D} (h : (set db now input).snd = .ok entry) :
    entry.revision = revisionOf db input.cell + 1 := by
  obtain ⟨_, _, _, hset⟩ | ⟨existing, _, hget, _, hset, _⟩ | ⟨_, hget, hset, _⟩ := set_cases db input now
  case inl => simp [hset] at h
  case inr.inl =>
    simp only [hset, SetResult.ok.injEq] at h
    rw [revisionOf, hget, ← h]
    rfl
  case inr.inr =>
    simp only [hset, SetResult.ok.injEq] at h
    rw [revisionOf, hget, ← h]
    rfl

theorem set_of_not_isOk (h : ¬ (set db now input).snd.isOk) : (set db now input).fst = db := by
  obtain ⟨_, _, _, hset⟩ | ⟨_, _, _, _, hset, _⟩ | ⟨_, _, hset, _⟩ := set_cases db input now
  case inl     => rw [hset]
  case inr.inl => simp [hset, SetResult.isOk] at h
  case inr.inr => simp [hset, SetResult.isOk] at h

-- What a set is to do after a history of the database: one that expects the revision of an entry that
-- was read at some time succeeds only while that entry is untouched, one that fails changes nothing, and
-- one that expects no revision gives a new one.
structure Law (db : Db D) (history : List (Event D)) (input : SetInput D) (now : Int) : Prop where
  seen   : ∀ before between row, history = before ++ between → (run db before).get? input.cell = some row →
    input.expectedRevision = some row.revision → (set (run db history) now input).snd.isOk →
      Untouched input.cell (run db before) between ∧ (run db history).get? input.cell = some row
  failed : ¬ (set (run db history) now input).snd.isOk → (set (run db history) now input).fst = run db history
  raised : ∀ entry, input.expectedRevision = none → (set (run db history) now input).snd = .ok entry →
    ∀ before between row, history = before ++ between → (run db before).get? input.cell = some row →
      row.revision < entry.revision

-- Where an entry that was read has been removed since, the cell holds an entry of another revision, and
-- no revision before is larger than the present one, or than 0 if the cell is empty.
structure Steady (db : Db D) (history : List (Event D)) (input : SetInput D) : Prop where
  compared : ∀ before between row, history = before ++ between → (run db before).get? input.cell = some row →
    input.expectedRevision = some row.revision → Removed input.cell (run db before) between →
      ∃ current, (run db history).get? input.cell = some current ∧ current.revision ≠ row.revision
  grown    : input.expectedRevision = none → ∀ before between row, history = before ++ between →
    (run db before).get? input.cell = some row → row.revision ≤ revisionOf (run db history) input.cell

-- Unseen writes are kept as long as no removal has set the revisions back.
theorem law_iff_steady {history : List (Event D)} : Law db history input now ↔ Steady db history input := by
  constructor
  case mp =>
    intro h
    constructor
    case compared =>
      intro before between row hhistory hread hexpected hremoved
      by_contra hnone
      have hok : (set (run db history) now input).snd.isOk := by
        rw [isOk_set_iff]
        intro current hcurrent r hr
        by_contra hne
        rw [hexpected] at hr
        exact hnone ⟨current, hcurrent, fun he => hne <| he.trans <| Option.some.inj hr⟩
      exact not_untouched_of_removed hremoved (h.seen before between row hhistory hread hexpected hok).left
    case grown =>
      intro hexpected before between row hhistory hread
      have hok : (set (run db history) now input).snd.isOk := by simp [isOk_set_iff, hexpected]
      cases hentry : (set (run db history) now input).snd
      case ok entry =>
        have hlt := h.raised entry hexpected hentry before between row hhistory hread
        rw [revision_of_set hentry] at hlt
        exact Int.le_of_lt_add_one hlt
      all_goals simp [hentry, SetResult.isOk] at hok
  case mpr =>
    intro h
    constructor
    case seen =>
      intro before between row hhistory hread hexpected hok
      rw [isOk_set_iff] at hok
      have hkept : ¬ Removed input.cell (run db before) between := by
        intro hremoved
        obtain ⟨current, hcurrent, hne⟩ := h.compared before between row hhistory hread hexpected hremoved
        exact hne <| hok current hcurrent _ hexpected
      obtain ⟨row', hrow', hor⟩ := run_kept hread hkept
      rw [← run_append, ← hhistory] at hrow'
      cases hor
      case inl hsame => exact ⟨hsame.left, hsame.right ▸ hrow'⟩
      case inr hlt   => exact absurd (hok row' hrow' _ hexpected) (Int.ne_of_gt hlt)
    case failed => exact set_of_not_isOk
    case raised =>
      intro entry hexpected hentry before between row hhistory hread
      rw [revision_of_set hentry]
      exact Int.lt_add_one_of_le <| h.grown hexpected before between row hhistory hread

-- A client that has read the entry "a" overwrites "b", which it has never seen: the cell was deleted
-- and set again, and both entries have the revision 1.
theorem not_law_recreated : ¬ Law .empty [
      .set { pluginId := "p", scope := .user, data := "a" } 1,
      .delete { pluginId := "p", scope := .user, owner := "" },
      .set { pluginId := "p", scope := .user, data := "b" } 2
    ] { pluginId := "p", scope := .user, data := "c", expectedRevision := some 1 } 3 := by
  intro h
  have hread : (run .empty [.set { pluginId := "p", scope := .user, data := "a" } 1]).get?
      { pluginId := "p", scope := .user, owner := "" } =
        some ⟨"p", .user, none, 1, 1, "a", 1, 1⟩ := by decide +kernel
  have hseen := h.seen _ _ _ (List.singleton_append (l := [_, _])).symm hread rfl <| by decide +kernel
  have hnow : (run .empty [
      .set { pluginId := "p", scope := .user, data := "a" } 1,
      .delete { pluginId := "p", scope := .user, owner := "" },
      .set { pluginId := "p", scope := .user, data := "b" } 2
    ]).get? { pluginId := "p", scope := .user, owner := "" } ≠
        some ⟨"p", .user, none, 1, 1, "a", 1, 1⟩ := by decide +kernel
  exact hnow hseen.right

end Repositories.PluginState
