import NeoTavern.Lib.Assoc
import NeoTavern.Lib.Runs
import NeoTavern.Lib.Table
import NeoTavern.Messages.Repository

namespace Repositories.Drafts

open Messages (MessageRole MessageRow)

-- The drawn identifiers are not empty.
abbrev Id := { s : String // s ≠ "" }

structure DraftRow where
  id                 : String
  chatId             : String
  branchId           : String
  role               : MessageRole
  content            : String
  name               : Option String
  metaJson           : String
  sequence           : Nat
  revision           : Nat
  committedMessageId : Option Id
  createdAt          : Int
  updatedAt          : Int
  deriving DecidableEq

structure MessageDraftCreate where
  role     : Option MessageRole := none
  name     : Option String := none
  metaJson : Option String := none

structure MessageDraftUpdate where
  content  : Option String := none
  role     : Option MessageRole := none
  sequence : Option Nat := none
  deriving DecidableEq

inductive UpdateStatus
  | applied
  | stale
  | missing
  deriving DecidableEq

structure UpdateResult where
  status : UpdateStatus
  draft  : Option DraftRow := none
  deriving DecidableEq

structure Db where
  drafts   : Table String DraftRow DraftRow.id
  messages : Table String MessageRow MessageRow.id

section Statements

variable (db : Db) (id : String)

def create (chatId branchId : String) (input : MessageDraftCreate) (now : Int) : Option Db := do
  let drafts ← db.drafts.insert? {
    id, chatId, branchId
    role               := input.role.getD .assistant
    content            := ""
    name               := input.name
    metaJson           := input.metaJson.getD "\x7b\x7d"
    sequence           := 0
    revision           := 1
    committedMessageId := none
    createdAt          := now
    updatedAt          := now
  }
  return { db with drafts }

def getById : Option DraftRow :=
  db.drafts.get? id

-- The first statement of `update`.
def readSequence : Option Nat :=
  (getById db id).map (·.sequence)

def isStale (patch : MessageDraftUpdate) (current : Nat) : Bool :=
  patch.sequence.any (· ≤ current)

def DraftRow.patched (d : DraftRow) (patch : MessageDraftUpdate) (now : Int) : DraftRow :=
  { d with
    content   := patch.content.getD d.content
    role      := patch.role.getD d.role
    sequence  := patch.sequence.getD d.sequence
    revision  := d.revision + 1
    updatedAt := now }

@[simp]
theorem DraftRow.patched_id (d : DraftRow) (patch : MessageDraftUpdate) (now : Int) :
    (d.patched patch now).id = d.id :=
  rfl

-- The statement that writes. Its condition names the draft only.
def write (patch : MessageDraftUpdate) (now : Int) : Db :=
  { db with drafts := db.drafts.update (·.id = id) (·.patched patch now) (·.patched_id patch now) }

-- What `update` does after the await behind its first statement, which has found `current`.
def continueUpdate (patch : MessageDraftUpdate) (current : Option Nat) (now : Int) : Db × UpdateResult :=
  match current with
  | none         => (db, { status := .missing })
  | some current =>
    if isStale patch current then
      match getById db id with
      | some draft => (db, { status := .stale, draft })
      | none       => (db, { status := .missing })
    else
      let db' := write db id patch now
      match getById db' id with
      | some draft => (db', { status := .applied, draft })
      | none       => (db', { status := .missing })

def DraftRow.message (draft : DraftRow) (messageId : Id) (now : Int) : MessageRow where
  id                    := messageId
  chatId                := draft.chatId
  branchId              := draft.branchId
  parentId              := none
  role                  := draft.role
  content               := draft.content
  name                  := draft.name
  metaJson              := draft.metaJson
  createdAt             := now
  revision              := 1
  updatedAt             := none
  idempotencyKey        := none
  variantCount          := 1
  activeVariantPosition := some 0
  contentRevisionCount  := 0
  checkpointChatId      := none

def DraftRow.committed (d : DraftRow) (messageId : Id) (now : Int) : DraftRow :=
  { d with committedMessageId := some messageId, updatedAt := now }

@[simp]
theorem DraftRow.committed_id (d : DraftRow) (messageId : Id) (now : Int) :
    (d.committed messageId now).id = d.id :=
  rfl

inductive CommitOutcome
  | missing
  | alreadyCommitted (messageId : Id)
  | created (message : MessageRow)
  deriving DecidableEq

def commit (messageId : Id) (now : Int) : Option (Db × CommitOutcome) :=
  match getById db id with
  | none       => some (db, .missing)
  | some draft =>
    match draft.committedMessageId with
    | some messageId => some (db, .alreadyCommitted messageId)
    | none           => do
      let message := draft.message messageId now
      let messages ← db.messages.insert? message
      let drafts := db.drafts.update (·.id = id) (·.committed messageId now) (·.committed_id messageId now)
      return ({ drafts, messages }, .created message)

def abort : Db :=
  { db with drafts := db.drafts.delete (·.id = id) }

def sweep (now committedTtlMs uncommittedTtlMs : Int) : Db :=
  let committedCutoff := now - committedTtlMs
  let uncommittedCutoff := now - uncommittedTtlMs
  { db with drafts := db.drafts.delete fun d =>
      d.committedMessageId.isSome && d.updatedAt < committedCutoff ||
      d.committedMessageId.isNone && d.updatedAt < uncommittedCutoff }

end Statements

-- One call of `update` by a streaming writer.
structure Write where
  sequence : Nat
  content  : String
  role     : Option MessageRole := none
  deriving DecidableEq

def Write.patch (u : Write) : MessageDraftUpdate where
  content  := some u.content
  role     := u.role
  sequence := some u.sequence

inductive Phase
  | selected (current : Option Nat)
  | returned (result : UpdateResult)
  deriving DecidableEq

-- A commit that has created a message, with the updates that had reported success before it.
structure Commit where
  message : MessageRow
  before  : List Write
  deriving DecidableEq

-- The draft `draftId` and the calls on it. No two updates have one sequence, which tells them apart.
structure World where
  draftId : String
  db      : Db
  calls   : List (Nat × (Write × Phase)) := []
  applied : List Write := []
  commits : List Commit := []

namespace World

inductive Event
  | update (u : Write)
  | resume (sequence : Nat) (now : Int)
  | commit (messageId : Id) (now : Int)
  | abort
  | sweep (now committedTtlMs uncommittedTtlMs : Int)
  deriving DecidableEq

def draft (w : World) : Option DraftRow :=
  getById w.db w.draftId

def resume (w : World) (u : Write) (current : Option Nat) (now : Int) : World :=
  let (db, result) := continueUpdate w.db w.draftId u.patch current now
  { w with
    db
    calls   := Assoc.set w.calls u.sequence (u, .returned result)
    applied := if result.status = .applied then w.applied ++ [u] else w.applied }

def step (w : World) : Event → World
  | .update u                                      =>
    if (Assoc.get w.calls u.sequence).isSome then w
    else { w with calls := Assoc.set w.calls u.sequence (u, .selected <| readSequence w.db w.draftId) }
  | .resume sequence now                           =>
    match Assoc.get w.calls sequence with
    | some (u, .selected current) => w.resume u current now
    | _                           => w
  | .commit messageId now                          =>
    match Drafts.commit w.db w.draftId messageId now with
    | some (db, .created message) => { w with db, commits := w.commits ++ [⟨message, w.applied⟩] }
    | some (db, _)                => { w with db }
    | none                        => w
  | .abort                                         => { w with db := Drafts.abort w.db w.draftId }
  | .sweep now committedTtlMs uncommittedTtlMs     =>
    { w with db := Drafts.sweep w.db now committedTtlMs uncommittedTtlMs }

-- The content is that of the highest of the updates, which the draft has the sequence of.
def Latest (us : List Write) (sequence : Nat) (content : String) : Prop :=
  us = [] ∧ sequence = 0 ∧ content = "" ∨
  ∃ u ∈ us, u.sequence = sequence ∧ u.content = content ∧ ∀ v ∈ us, v.sequence ≤ u.sequence

-- What is asked of each state of a run that starts with the messages `ms`.
structure Ordered (ms : List MessageRow) (w : World) : Prop where
  content   : ∀ d, w.draft = some d → Latest w.applied d.sequence d.content
  committed : ∀ c ∈ w.commits, c.message ∈ w.db.messages ∧
    ∀ u ∈ c.before, c.message.content = u.content ∨ ∃ v ∈ c.before, u.sequence < v.sequence
  once      : w.db.messages.rows.length ≤ ms.length + 1

-- What is asked of each step.
def Rising (w : World) (e : Event) : Prop :=
  ∀ d d', w.draft = some d → (w.step e).draft = some d' → d.sequence ≤ d'.sequence

-- An update that is about to write is still ahead of the draft.
def Ahead (w : World) : Event → Prop
  | .resume sequence _ => ∀ u current d, Assoc.get w.calls sequence = some (u, .selected (some current)) →
    current < u.sequence → w.draft = some d → d.sequence < u.sequence
  | _                  => True

-- What holds in every run.
structure Kept (ms : List MessageRow) (w : World) : Prop where
  calls    : ∀ sequence u phase, Assoc.get w.calls sequence = some (u, phase) → u.sequence = sequence
  returned : ∀ u ∈ w.applied, ∃ result, Assoc.get w.calls u.sequence = some (u, .returned result)
  distinct : (w.applied.map (·.sequence)).Nodup
  stored   : ∀ d, w.draft = some d → d.sequence = 0 ∨ ∃ u ∈ w.applied, u.sequence = d.sequence
  uncommitted : ∀ d, w.draft = some d → d.committedMessageId = none → w.commits = []
  messages : w.db.messages.rows = ms ++ w.commits.map (·.message)
  once     : w.commits.length ≤ 1

-- The step of an update that writes.
def applying (w : World) (u : Write) (now : Int) (result : UpdateResult) : World :=
  { w with
    db      := write w.db w.draftId u.patch now
    calls   := Assoc.set w.calls u.sequence (u, .returned result)
    applied := w.applied ++ [u] }

-- The steps that do not write into the draft what an update has brought.
inductive Quiet (w : World) : World → Prop
  | same    : Quiet w w
  | begins  : Assoc.get w.calls u.sequence = none →
    Quiet w { w with calls := Assoc.set w.calls u.sequence (u, .selected current) }
  | returns {sequence : Nat} : Assoc.get w.calls sequence = some (u, .selected current) →
    Quiet w { w with calls := Assoc.set w.calls u.sequence (u, .returned result) }
  | commits {messages : Table String MessageRow MessageRow.id} :
    w.draft = some d → d.committedMessageId = none →
    messages.rows = w.db.messages.rows ++ [d.message messageId now] →
    Quiet w { w with
      db.drafts   :=
        w.db.drafts.update (·.id = w.draftId) (·.committed messageId now) (·.committed_id messageId now)
      db.messages := messages
      commits     := w.commits ++ [⟨d.message messageId now, w.applied⟩] }
  | removes {p : DraftRow → Bool} : Quiet w { w with db.drafts := w.db.drafts.delete p }

section Steps

variable {ms : List MessageRow} {w w' : World} {u : Write} {d : DraftRow} {e : Event} {sequence : Nat}

theorem resume_cases (hget : Assoc.get w.calls sequence = some (u, .selected current)) :
    (∃ c d result, current = some c ∧ c < u.sequence ∧ w.draft = some d ∧
      w.resume u current now = w.applying u now result) ∨
    (Quiet w (w.resume u current now) ∧ ∀ c d, current = some c → c < u.sequence → w.draft ≠ some d) := by
  have hquiet (result : UpdateResult) :
      Quiet w { w with calls := Assoc.set w.calls u.sequence (u, .returned result) } := .returns hget
  cases current
  case none => exact .inr ⟨hquiet _, by simp⟩
  case some c =>
    by_cases hlt : c < u.sequence
    case pos =>
      have hstale : isStale u.patch c = false := by simpa [isStale, Write.patch] using hlt
      cases hd : w.draft
      case none =>
        have hsame : write w.db w.draftId u.patch now = w.db := by
          have hcount : w.db.drafts.count (·.id = w.draftId) = 0 := by
            rw [Table.count_eq_zero_iff]
            intro r hr
            simpa using Table.get?_eq_none_iff.mp hd r hr
          rw [write, Table.update_eq_self hcount]
        have hnone : getById w.db w.draftId = none := hd
        have heq : w.resume u (some c) now =
            { w with calls := Assoc.set w.calls u.sequence (u, .returned { status := .missing }) } := by
          simp [resume, continueUpdate, hstale, hsame, hnone]
        exact .inr ⟨heq ▸ hquiet _, by simp⟩
      case some d =>
        have hnew : getById (write w.db w.draftId u.patch now) w.draftId = some (d.patched u.patch now) := by
          have hd : w.db.drafts.get? w.draftId = some d := hd
          simp [getById, write, Table.get?_update, hd, Table.get?_key_eq hd]
        have heq : w.resume u (some c) now =
            w.applying u now { status := .applied, draft := some (d.patched u.patch now) } := by
          simp [resume, continueUpdate, hstale, hnew, applying]
        exact .inl ⟨c, d, _, rfl, hlt, rfl, heq⟩
    case neg =>
      have hstale : isStale u.patch c = true := by simpa [isStale, Write.patch] using hlt
      have heq : ∃ result, w.resume u (some c) now =
          { w with calls := Assoc.set w.calls u.sequence (u, .returned result) } := by
        cases hd : getById w.db w.draftId
        case none   => exact ⟨{ status := .missing }, by simp [resume, continueUpdate, hstale, hd]⟩
        case some d => exact ⟨{ status := .stale, draft := some d }, by simp [resume, continueUpdate, hstale, hd]⟩
      obtain ⟨_, heq⟩ := heq
      exact .inr ⟨heq ▸ hquiet _, fun c' d hc hlt' => absurd (Option.some.inj hc ▸ hlt') hlt⟩

theorem commit_quiet : Quiet w (w.step (.commit messageId now)) := by
  simp only [step]
  cases hd : w.draft
  case none =>
    have hd : getById w.db w.draftId = none := hd
    simpa [commit, hd] using Quiet.same
  case some d =>
    have hget : getById w.db w.draftId = some d := hd
    cases hc : d.committedMessageId
    case some => simpa [commit, hget, hc] using Quiet.same
    case none =>
      cases hi : w.db.messages.insert? (d.message messageId now)
      case none          => simpa [commit, hget, hc, hi] using Quiet.same
      case some messages =>
        simpa [commit, hget, hc, hi] using Quiet.commits hd hc (Table.insert?_rows hi)

theorem step_cases (w : World) (e : Event) :
    (∃ sequence now u c d result, e = .resume sequence now ∧
      Assoc.get w.calls sequence = some (u, .selected (some c)) ∧ c < u.sequence ∧ w.draft = some d ∧
      w.step e = w.applying u now result) ∨
    Quiet w (w.step e) ∧ Ahead w e := by
  cases e
  case update u =>
    cases hget : Assoc.get w.calls u.sequence
    case none   => exact .inr ⟨by simpa [step, hget] using Quiet.begins hget, trivial⟩
    case some _ => exact .inr ⟨by simpa [step, hget] using Quiet.same, trivial⟩
  case resume sequence now =>
    have hother (h : ∀ u current, Assoc.get w.calls sequence ≠ some (u, .selected current)) :
        w.step (.resume sequence now) = w := by
      simp only [step]
    by_cases hget : ∃ u current, Assoc.get w.calls sequence = some (u, .selected current)
    case neg =>
      simp only [not_exists] at hget
      rw [hother hget]
      exact .inr ⟨.same, fun u c d h => absurd h (hget u _)⟩
    case pos =>
      obtain ⟨u, current, hget⟩ := hget
      have heq : w.step (.resume sequence now) = w.resume u current now := by simp [step, hget]
      rw [heq]
      have hcases : _ ∨ Quiet w (w.resume u current now) ∧ _ := resume_cases hget
      cases hcases
      case inl h =>
        obtain ⟨c, d, result, hc, hlt, hd, hr⟩ := h
        exact .inl ⟨sequence, now, u, c, d, result, rfl, hc ▸ hget, hlt, hd, hr⟩
      case inr h =>
        refine .inr ⟨h.left, fun u' c d hget' hlt hd => ?_⟩
        rw [hget] at hget'
        cases hget'
        exact absurd hd (h.right c d rfl hlt)
  case commit messageId now => exact .inr ⟨commit_quiet, trivial⟩
  case abort                => exact .inr ⟨.removes, trivial⟩
  case sweep                => exact .inr ⟨.removes, trivial⟩

theorem draft_applying (hd : w.draft = some d) :
    (w.applying u now result).draft = some (d.patched u.patch now) := by
  have hd : w.db.drafts.get? w.draftId = some d := hd
  simp [draft, applying, getById, write, Table.get?_update, hd, Table.get?_key_eq hd]

-- What a quiet step leaves of the draft, of the updates and of the messages.
theorem Quiet.draft (h : Quiet w w') (hd' : w'.draft = some d') :
    ∃ d, w.draft = some d ∧ d'.sequence = d.sequence ∧ d'.content = d.content ∧
      (d'.committedMessageId = none → d.committedMessageId = none ∧ w'.commits = w.commits) := by
  cases h
  case same    => exact ⟨d', hd', rfl, rfl, fun h => ⟨h, rfl⟩⟩
  case begins  => exact ⟨d', hd', rfl, rfl, fun h => ⟨h, rfl⟩⟩
  case returns => exact ⟨d', hd', rfl, rfl, fun h => ⟨h, rfl⟩⟩
  case commits d messageId now messages hd hnone hrows =>
    have hget : w.db.drafts.get? w.draftId = some d := hd
    simp only [World.draft, getById, Table.get?_update, hget, Option.map_some, Table.get?_key_eq hget,
      decide_true, ite_true, Option.some.injEq] at hd'
    subst hd'
    exact ⟨d, hd, rfl, rfl, fun h => by cases h⟩
  case removes p =>
    have hget : (w.db.drafts.delete p).get? w.draftId = some d' := hd'
    rw [Table.get?_delete, Option.filter_eq_some_iff] at hget
    exact ⟨d', hget.left, rfl, rfl, fun h => ⟨h, rfl⟩⟩

theorem Quiet.applied (h : Quiet w w') : w'.applied = w.applied := by
  cases h <;> rfl

theorem Quiet.commits_cases (h : Quiet w w') :
    (w'.commits = w.commits ∧ w'.db.messages = w.db.messages) ∨
    ∃ d messageId now, w.draft = some d ∧ d.committedMessageId = none ∧
      w'.commits = w.commits ++ [⟨d.message messageId now, w.applied⟩] ∧
      w'.db.messages.rows = w.db.messages.rows ++ [d.message messageId now] := by
  cases h
  case commits d messageId now messages hd hnone hrows => exact .inr ⟨d, messageId, now, hd, hnone, rfl, hrows⟩
  all_goals exact .inl ⟨rfl, rfl⟩

-- A call that has returned stays as it is, and the others keep their names.
theorem Quiet.calls (h : Quiet w w') (hk : Kept ms w) :
    (∀ sequence u phase, Assoc.get w'.calls sequence = some (u, phase) → u.sequence = sequence) ∧
    ∀ sequence u result, Assoc.get w.calls sequence = some (u, .returned result) →
      Assoc.get w'.calls sequence = some (u, .returned result) := by
  cases h
  case begins u current hnone =>
    constructor
    case left =>
      intro sequence v phase hget
      by_cases heq : sequence = u.sequence
      case pos =>
        rw [heq, Assoc.get_set_self] at hget
        cases hget
        exact heq.symm
      case neg => exact hk.calls sequence v phase <| Assoc.get_set_of_ne heq ▸ hget
    case right =>
      intro sequence v result hget
      have hne : sequence ≠ u.sequence := fun heq => by simp [heq ▸ hget] at hnone
      exact (Assoc.get_set_of_ne hne).trans hget
  case returns u current result sequence hcall =>
    have hkey := hk.calls _ _ _ hcall
    constructor
    case left =>
      intro sequence' v phase hget
      by_cases heq : sequence' = u.sequence
      case pos =>
        rw [heq, Assoc.get_set_self] at hget
        cases hget
        exact heq.symm
      case neg => exact hk.calls sequence' v phase <| Assoc.get_set_of_ne heq ▸ hget
    case right =>
      intro sequence' v result' hget
      have hne : sequence' ≠ u.sequence := by
        intro heq
        rw [heq, hkey, hcall] at hget
        cases hget
      exact (Assoc.get_set_of_ne hne).trans hget
  all_goals exact ⟨hk.calls, fun _ _ _ hget => hget⟩

theorem Kept.quiet (hk : Kept ms w) (h : Quiet w w') : Kept ms w' := by
  have ⟨hnames, hreturned⟩ := h.calls hk
  constructor
  case calls    => exact hnames
  case distinct => exact h.applied ▸ hk.distinct
  case returned =>
    intro v hv
    have ⟨result, hget⟩ := hk.returned v (h.applied ▸ hv)
    exact ⟨result, hreturned _ _ _ hget⟩
  case stored =>
    intro d' hd'
    have ⟨d, hd, hsequence, _⟩ := h.draft hd'
    rw [hsequence, h.applied]
    exact hk.stored d hd
  case uncommitted =>
    intro d' hd' hnone
    have ⟨d, hd, _, _, hsame⟩ := h.draft hd'
    have ⟨hnone, hcommits⟩ := hsame hnone
    exact hcommits ▸ hk.uncommitted d hd hnone
  case messages =>
    cases h.commits_cases
    case inl h => rw [h.left, h.right, hk.messages]
    case inr h =>
      have ⟨_, _, _, _, _, hcommits, hrows⟩ := h
      rw [hcommits, hrows, hk.messages, List.map_append, List.append_assoc]
      rfl
  case once =>
    cases h.commits_cases
    case inl h => exact h.left ▸ hk.once
    case inr h =>
      have ⟨d, _, _, hd, hnone, hcommits, _⟩ := h
      rw [hcommits, hk.uncommitted d hd hnone]
      exact Nat.le_refl 1

-- The call that is about to write is none of those that have.
theorem Kept.fresh (hk : Kept ms w) (hget : Assoc.get w.calls sequence = some (u, .selected current)) :
    ∀ v ∈ w.applied, v.sequence ≠ u.sequence := by
  intro v hv heq
  have ⟨result, hv⟩ := hk.returned v hv
  rw [heq, hk.calls _ _ _ hget, hget] at hv
  cases hv

theorem Kept.applying (hk : Kept ms w) (hget : Assoc.get w.calls sequence = some (u, .selected current))
    (hd : w.draft = some d) : Kept ms (w.applying u now result) := by
  have hfresh := hk.fresh hget
  have hdraft : (w.applying u now result).draft = some (d.patched u.patch now) := draft_applying hd
  constructor
  case calls =>
    intro sequence' v phase hv
    by_cases heq : sequence' = u.sequence
    case pos =>
      simp only [World.applying, heq, Assoc.get_set_self] at hv
      cases hv
      exact heq.symm
    case neg => exact hk.calls sequence' v phase <| Assoc.get_set_of_ne heq ▸ hv
  case returned =>
    intro v hv
    cases List.mem_append.mp hv
    case inl hv =>
      obtain ⟨result', hget'⟩ := hk.returned v hv
      exact ⟨result', (Assoc.get_set_of_ne (hfresh v hv)).trans hget'⟩
    case inr hv =>
      rw [List.mem_singleton.mp hv]
      exact ⟨result, Assoc.get_set_self⟩
  case distinct =>
    simp only [World.applying, List.map_append, List.map_cons, List.map_nil]
    apply List.nodup_append.mpr
    refine ⟨hk.distinct, List.nodup_singleton _, fun a ha b hb => ?_⟩
    obtain ⟨v, hv, hva⟩ := List.mem_map.mp ha
    rw [← hva, List.mem_singleton.mp hb]
    exact hfresh v hv
  case stored =>
    intro d' hd'
    rw [hdraft] at hd'
    cases hd'
    exact .inr ⟨u, by simp [World.applying], rfl⟩
  case uncommitted =>
    intro d' hd' hnone
    rw [hdraft] at hd'
    cases hd'
    exact hk.uncommitted d hd hnone
  case messages => exact hk.messages
  case once     => exact hk.once

theorem Kept.step (e : Event) (hk : Kept ms w) : Kept ms (w.step e) := by
  cases step_cases w e
  case inl h =>
    have ⟨_, _, _, _, _, _, _, hget, _, hd, heq⟩ := h
    exact heq ▸ hk.applying hget hd
  case inr h => exact hk.quiet h.left

theorem Latest.le (h : Latest us sequence content) : ∀ v ∈ us, v.sequence ≤ sequence := by
  intro v hv
  cases h
  case inl h => simp [h.left] at hv
  case inr h =>
    have ⟨_, _, hu, _, hle⟩ := h
    exact hu ▸ hle v hv

theorem once_of_kept (hk : Kept ms w) : w.db.messages.rows.length ≤ ms.length + 1 := by
  rw [hk.messages, List.length_append, List.length_map]
  exact Nat.add_le_add_left hk.once _

-- What a commit takes over from the draft.
theorem committed_of_latest (hn : (us.map Write.sequence).Nodup) (h : Latest us sequence content) :
    ∀ u ∈ us, content = u.content ∨ ∃ v ∈ us, u.sequence < v.sequence := by
  intro u hu
  cases h
  case inl h => simp [h.left] at hu
  case inr h =>
    have ⟨v, hv, _, hcontent, hle⟩ := h
    cases Nat.lt_or_eq_of_le <| hle u hu
    case inl hlt => exact .inr ⟨v, hv, hlt⟩
    case inr heq =>
      have huv : u = v := List.inj_on_of_nodup_map hn hu hv heq
      exact .inl <| huv ▸ hcontent.symm

theorem Ordered.quiet (ho : Ordered ms w) (hk : Kept ms w) (h : Quiet w w') : Ordered ms w' := by
  constructor
  case once    => exact once_of_kept <| hk.quiet h
  case content =>
    intro d' hd'
    have ⟨d, hd, hsequence, hcontent, _⟩ := h.draft hd'
    rw [hsequence, hcontent, h.applied]
    exact ho.content d hd
  case committed =>
    intro c hc
    cases h.commits_cases
    case inl h => exact h.right ▸ ho.committed c (h.left ▸ hc)
    case inr h =>
      have ⟨d, messageId, now, hd, _, hcommits, hrows⟩ := h
      have hmem : c.message ∈ w'.db.messages ↔
          c.message ∈ w.db.messages ∨ c.message = d.message messageId now := by
        rw [Table.mem_def, hrows, List.mem_append, List.mem_singleton]
        rfl
      rw [hmem]
      rw [hcommits] at hc
      cases List.mem_append.mp hc
      case inl hc => exact ⟨.inl (ho.committed c hc).left, (ho.committed c hc).right⟩
      case inr hc =>
        rw [List.mem_singleton.mp hc]
        exact ⟨.inr rfl, committed_of_latest hk.distinct (ho.content d hd)⟩

theorem Quiet.rising (h : Quiet w (w.step e)) : Rising w e := by
  intro d d' hd hd'
  have ⟨d₀, hd₀, hsequence, _⟩ := h.draft hd'
  rw [hd] at hd₀
  cases hd₀
  exact Nat.le_of_eq hsequence.symm

theorem Ordered.applying (ho : Ordered ms w) (hd : w.draft = some d) (hlt : d.sequence < u.sequence) :
    Ordered ms (w.applying u now result) := by
  constructor
  case committed => exact ho.committed
  case once      => exact ho.once
  case content   =>
    intro d' hd'
    rw [draft_applying hd] at hd'
    cases hd'
    refine .inr ⟨u, by simp [World.applying], rfl, rfl, fun v hv => ?_⟩
    cases List.mem_append.mp hv
    case inl hv => exact ((ho.content d hd).le v hv).trans hlt.le
    case inr hv => exact (List.mem_singleton.mp hv) ▸ Nat.le_refl _

theorem ordered_step_iff (w : World) (e : Event) (hk : Kept ms w) (ho : Ordered ms w) :
    Ordered ms (w.step e) ∧ Rising w e ↔ Ahead w e := by
  cases step_cases w e
  case inr h => exact iff_of_true ⟨ho.quiet hk h.left, h.left.rising⟩ h.right
  case inl h =>
    have ⟨sequence, now, u, c, d, result, he, hget, hlt, hd, heq⟩ := h
    have hahead : Ahead w e ↔ d.sequence < u.sequence := by
      rw [he]
      constructor
      case mp  => exact fun h => h u c d hget hlt hd
      case mpr =>
        intro h u' c' d' hget' _ hd'
        rw [hget] at hget'
        rw [hd] at hd'
        cases hget'
        cases hd'
        exact h
    have hdraft : (w.step e).draft = some (d.patched u.patch now) := heq ▸ draft_applying hd
    rw [hahead]
    constructor
    case mp  =>
      intro ⟨_, hrising⟩
      have hle : d.sequence ≤ u.sequence := hrising d _ hd hdraft
      have hne : d.sequence ≠ u.sequence := by
        intro hsame
        cases hk.stored d hd
        case inl hzero => omega
        case inr h     =>
          have ⟨v, hv, hsequence⟩ := h
          exact hk.fresh hget v hv (hsequence.trans hsame)
      omega
    case mpr =>
      intro hlt'
      constructor
      case left  => exact heq ▸ ho.applying hd hlt'
      case right =>
        intro d₁ d' hd₁ hd'
        rw [hd] at hd₁
        rw [hdraft] at hd'
        cases hd₁
        cases hd'
        exact hlt'.le

end Steps

section Runs

variable {db db' : Db} {draftId chatId branchId : String} {input : MessageDraftCreate} {now : Int}

-- A draft that has just been created.
def start (draftId : String) (db : Db) : World where
  draftId := draftId
  db      := db

theorem draft_start (h : create db draftId chatId branchId input now = some db')
    (hd : (start draftId db').draft = some d) :
    d.sequence = 0 ∧ d.content = "" := by
  have ⟨drafts, hi, heq⟩ := Option.bind_eq_some_iff.mp h
  have hdb : db' = { db with drafts } := (Option.some.inj heq).symm
  have hget : drafts.get? draftId = some d := by rwa [hdb] at hd
  rw [Table.get?_insert? hi, if_pos rfl] at hget
  cases hget
  exact ⟨rfl, rfl⟩

theorem kept_start (h : create db draftId chatId branchId input now = some db') :
    Kept db'.messages.rows (start draftId db') where
  calls _ _ _ hget  := by cases hget
  returned _ hu     := by cases hu
  distinct          := List.nodup_nil
  stored _ hd       := .inl (draft_start h hd).left
  uncommitted _ _ _ := rfl
  messages          := (List.append_nil _).symm
  once              := Nat.zero_le 1

theorem ordered_start (h : create db draftId chatId branchId input now = some db') :
    Ordered db'.messages.rows (start draftId db') where
  content _ hd   := .inl ⟨rfl, draft_start h hd⟩
  committed _ hc := by cases hc
  once           := Nat.le_succ _

theorem runs_ordered_iff (db db' : Db) (draftId chatId branchId : String) (input : MessageDraftCreate)
    (now : Int) (h : create db draftId chatId branchId input now = some db') (es : List Event) :
    Runs.Throughout step (Ordered db'.messages.rows) (start draftId db') es ∧
        Runs.Meets step Rising (start draftId db') es ↔
      Runs.Meets step Ahead (start draftId db') es :=
  Runs.throughout_and_meets_iff (fun _ e => Kept.step e) ordered_step_iff (kept_start h) (ordered_start h)

def emptyDb : Db where
  drafts   := .empty
  messages := .empty

def greetingDraft : DraftRow where
  id                 := "draft"
  chatId             := "chat"
  branchId           := "main"
  role               := .assistant
  content            := ""
  name               := none
  metaJson           := "\x7b\x7d"
  sequence           := 0
  revision           := 1
  committedMessageId := none
  createdAt          := 4
  updatedAt          := 4

def greetingDb : Db where
  drafts   := ⟨[greetingDraft], by decide⟩
  messages := .empty

theorem create_greetingDb : create emptyDb "draft" "chat" "main" {} 4 = some greetingDb :=
  rfl

def messageM : Id :=
  ⟨"m", by decide⟩

def inTurn : List Event :=
  [.update ⟨1, "Hello", none⟩, .resume 1 5, .update ⟨2, "Hello there", none⟩, .resume 2 6, .commit messageM 7]

theorem inTurn_ordered_iff :
    Runs.Throughout step (Ordered greetingDb.messages.rows) (start "draft" greetingDb) inTurn ∧
        Runs.Meets step Rising (start "draft" greetingDb) inTurn ↔
      Runs.Meets step Ahead (start "draft" greetingDb) inTurn :=
  runs_ordered_iff emptyDb greetingDb "draft" "chat" "main" {} 4 create_greetingDb inTurn

-- Two updates select before either of them writes, and the later one writes first.
def overtaken : List Event :=
  [.update ⟨2, "Hello there", none⟩, .update ⟨1, "Hello", none⟩, .resume 2 5, .resume 1 6, .commit messageM 7]

theorem overtaken_not_ordered :
    create emptyDb "draft" "chat" "main" {} 4 = some greetingDb ∧
      ¬(Runs.Throughout step (Ordered greetingDb.messages.rows) (start "draft" greetingDb) overtaken ∧
        Runs.Meets step Rising (start "draft" greetingDb) overtaken) := by
  constructor
  case left  => exact create_greetingDb
  case right =>
    intro ⟨h, _⟩
    have happlied : ⟨2, "Hello there", none⟩ ∈ (overtaken.foldl step (start "draft" greetingDb)).applied := by
      decide
    have hdraft : (overtaken.foldl step (start "draft" greetingDb)).draft.map (·.sequence) = some 1 := by decide
    have ⟨d, hd, hsequence⟩ := Option.map_eq_some_iff.mp hdraft
    have hle := (h.last.content d hd).le _ happlied
    rw [hsequence] at hle
    exact absurd hle (by decide)

end Runs

end World

end Repositories.Drafts
