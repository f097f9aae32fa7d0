import Mathlib
import NeoTavern.Kernel.Chats
import NeoTavern.Kernel.Executor
import NeoTavern.Kernel.Generation
import NeoTavern.Storage.Database

namespace Kernel

open Wire Storage Proc
open Journal (Grows)

-- `t` comes from `w` by commits that `S` allows. Failures of the storage stay on record.
structure Later (S : Db → Label → Db → Prop) (w t : World) : Prop where
  grows    : Grows S w.journal t.journal
  failures : w.failures <:+ t.failures

namespace Later

variable {S S' : Db → Label → Db → Prop} {w t u : World}

theorem refl : Later S w w :=
  ⟨.refl, List.suffix_rfl⟩

theorem trans (h₁ : Later S w t) (h₂ : Later S t u) : Later S w u :=
  ⟨h₁.grows.trans h₂.grows, h₁.failures.trans h₂.failures⟩

theorem mono (h : Later S w t) (hs : ∀ d l d', S d l d' → S' d l d') : Later S' w t :=
  ⟨h.grows.mono hs, h.failures⟩

end Later

-- `p` commits only what `S` allows, and ends in `Q` when it succeeds.
structure Moves (S : Db → Label → Db → Prop) (p : KernelM α) (Q : α → World → Prop) (w : World) :
    Prop where
  wp : wp p (fun a t => Later S w t ∧ Q a t) (fun _ t => Later S w t) w

theorem World.db_eq {w t : World} (h : t.journal = w.journal) : t.db = w.db := by
  rw [World.db, World.db, h]

namespace Moves

variable {α β : Type} {S S' : Db → Label → Db → Prop} {w : World} {p : KernelM α}
  {k : α → KernelM β}

section Structure

variable {Q Q' : α → World → Prop} {R : β → World → Prop}

theorem mono (h : Moves S p Q w) (hs : ∀ d l d', S d l d' → S' d l d')
    (hq : ∀ a t, Later S w t → Q a t → Q' a t) : Moves S' p Q' w :=
  ⟨wp_mono h.wp (fun a t ⟨hg, h⟩ => ⟨hg.mono hs, hq a t hg h⟩) fun _ _ hg => hg.mono hs⟩

theorem post (h : Moves S p Q w) (hq : ∀ a t, Later S w t → Q a t → Q' a t) :
    Moves S p Q' w :=
  h.mono (fun _ _ _ h => h) hq

theorem pure (h : Q a w) : Moves S (Pure.pure a) Q w :=
  ⟨.refl, h⟩

theorem fail : Moves S (Proc.fail e) Q w :=
  ⟨Later.refl⟩

theorem fail_bind : Moves S (Proc.fail e >>= k) R w :=
  ⟨Later.refl⟩

theorem bind (hp : Moves S p Q w)
    (hk : ∀ a t, Later S w t → Q a t → Moves S (k a) R t) :
    Moves S (p >>= k) R w := by
  refine ⟨wp_bind.mpr <| wp_mono hp.wp ?_ fun _ _ h => h⟩
  intro a t ⟨hg, hq⟩
  refine wp_mono (hk a t hg hq).wp ?_ fun _ _ => hg.trans
  exact fun _ _ ⟨hg', hr⟩ => ⟨hg.trans hg', hr⟩

-- As `bind`, when what `p` does in this very state matters.
theorem bind_run (hp : Moves S p Q w)
    (hk : ∀ a t, p w = (.ok a, t) → Later S w t → Q a t → Moves S (k a) R t) :
    Moves S (p >>= k) R w := by
  refine bind (Q := fun a t => p w = (.ok a, t) ∧ Q a t) ⟨?_⟩ fun a t hg ⟨hr, hq⟩ => hk a t hr hg hq
  have := hp.wp
  unfold Proc.wp at this ⊢
  split <;> simp_all

theorem ofExcept {r : Except KernelError α} (h : ∀ a, r = .ok a → Q a w) :
    Moves S (Proc.ofExcept r) Q w := by
  cases r
  case ok a    => exact pure <| h a rfl
  case error e => exact fail

theorem attempt {Q : Except KernelError α → World → Prop}
    (h : Moves S p (fun a t => Q (.ok a) t) w)
    (he : ∀ e t, Later S w t → Q (.error e) t) : Moves S (Proc.attempt p) Q w := by
  refine ⟨wp_attempt.mpr <| wp_mono h.wp ?_ ?_⟩
  · exact fun _ _ h => h
  · exact fun e t hg => ⟨hg, he e t hg⟩

-- What `p` leaves behind, whatever its outcome.
theorem later (h : Moves S p Q w) : Later S w (p w).snd := by
  have h := h.wp
  unfold Proc.wp at h
  split at h <;> simp_all

end Structure

section Primitives

theorem utcNow : Moves S utcNow (fun _ t => t.journal = w.journal) w :=
  ⟨⟨.refl, List.suffix_rfl⟩, rfl⟩

theorem now : Moves S now (fun _ t => t.journal = w.journal) w :=
  utcNow.bind fun _ _ _ hj => pure hj

theorem leaseExpires : Moves S leaseExpires (fun _ t => t.journal = w.journal) w := by
  refine utcNow.bind fun t _ _ hj => ?_
  split
  · exact pure hj
  · exact now.post fun _ _ _ hj' => hj'.trans hj

theorem newId : Moves S newId (fun i t => t.journal = w.journal ∧ isUuid i) w :=
  ⟨⟨.refl, List.suffix_rfl⟩, rfl, newId_isUuid _⟩

theorem gets {f : World → α} : Moves S (Proc.gets f) (fun a t => t = w ∧ a = f w) w :=
  ⟨.refl, rfl, rfl⟩

theorem modify {f : World → World} (h : (f w).journal = w.journal)
    (hf : (f w).failures = w.failures) : Moves S (Proc.modify f) (fun _ t => t = f w) w :=
  ⟨⟨h ▸ .refl, hf ▸ List.suffix_rfl⟩, rfl⟩

theorem validate (check : α → String → List Issue) (dto : α) :
    Moves S (validate check dto) (fun _ t => t.journal = w.journal ∧ check dto "" = []) w := by
  unfold Kernel.validate
  split
  case h_1 h => exact pure ⟨rfl, h⟩
  case h_2   => exact fail

theorem decodeRequest (check : α → String → List Issue) (req : Payload α) :
    Moves S (decodeRequest check req)
      (fun r t => t.journal = w.journal ∧ req = .object r ∧ check r "" = []) w := by
  unfold Kernel.decodeRequest
  split
  case h_1 h => exact pure ⟨rfl, decode_eq_ok_iff.mp h⟩
  case h_2   => exact fail

theorem sendNotice : Moves S (sendNotice runId n) (fun _ t => t.journal = w.journal) w :=
  (modify rfl rfl).post fun _ _ _ ht => ht ▸ rfl

theorem query : Moves S (query context f) (fun a t => t.journal = w.journal ∧ a = f w.db) w := by
  constructor
  unfold Kernel.query faulty Proc.wp
  cases hf : w.env.fault w.ops
  case none   => simpa only [hf, Proc.gets] using ⟨⟨.refl, List.suffix_rfl⟩, trivial, rfl⟩
  case some f => simpa only [hf, storageFailure] using ⟨.refl, List.suffix_cons ..⟩

theorem transaction {label : α → Label} {body : Tx α} {Q : α → Db → Prop}
    (h : Tx.Ensures body (fun a d => S w.db (label a) d ∧ Q a d) w.db) :
    Moves S (transaction context label body) (fun a t => Q a t.db) w := by
  constructor
  unfold Kernel.transaction faulty Proc.wp
  cases hf : w.env.fault w.ops
  case some f => simpa only [hf, storageFailure] using ⟨.refl, List.suffix_cons ..⟩
  case none   =>
    have hd : World.db { w with ops := w.ops + 1 } = w.db := rfl
    simp only [hf, hd]
    unfold Tx.Ensures Proc.wp at h
    rcases hb : body w.db with ⟨r, d⟩
    rw [hb] at h
    cases r
    case ok a    => exact ⟨⟨.single h.left, List.suffix_rfl⟩, h.right⟩
    case error e => exact ⟨.refl, List.suffix_cons ..⟩

end Primitives

section Rows

variable {runId : String}

theorem loadRun : Moves S (loadRun runId)
    (fun r t => t.journal = w.journal ∧ r = w.db.runs.get? runId) w :=
  query

theorem requireRun : Moves S (requireRun runId missing)
    (fun r t => t.journal = w.journal ∧ w.db.runs.get? runId = some r) w := by
  refine loadRun.bind fun r _ _ ⟨hj, hr⟩ => ?_
  cases r
  case none   => exact fail
  case some r => exact pure ⟨hj, hr.symm⟩

theorem reload : Moves S (reload runId)
    (fun r t => t.journal = w.journal ∧ w.db.runs.get? runId = some r) w :=
  requireRun

theorem loadDeltaTexts : Moves S (loadDeltaTexts runId) (fun _ t => t.journal = w.journal) w :=
  query.bind fun _ _ _ h => ofExcept fun _ _ => h.left

theorem concatDeltaText : Moves S (concatDeltaText runId) (fun _ t => t.journal = w.journal) w := by
  unfold Kernel.concatDeltaText
  exact loadDeltaTexts.bind fun _ _ _ hj => pure hj

theorem runToDto : Moves S (runToDto run) (fun _ t => t.journal = w.journal) w := by
  unfold Kernel.runToDto
  exact concatDeltaText.bind fun _ _ _ hj => pure hj

theorem runResponse : Moves S (runResponse run) (fun _ t => t.journal = w.journal) w := by
  unfold Kernel.runResponse
  refine runToDto.bind fun dto _ _ hj => ?_
  refine (validate checkGenerationRun dto).bind fun _ _ _ h => ?_
  exact pure <| h.left.trans hj

theorem ensureRecoverable : Moves S (ensureRecoverable run)
    (fun _ t => t.journal = w.journal ∧ isRecoverable run.status) w := by
  unfold Kernel.ensureRecoverable
  split
  case isTrue h => exact pure ⟨rfl, h⟩
  case isFalse  => exact fail

end Rows
end Moves
end Kernel

namespace Kernel

open Wire Storage Paging

section Messages

def chatNotFound (chatId : String) : KernelError :=
  .ofProduct "CHAT_NOT_FOUND" [("chatId", chatId)]

-- `str::parse::<i64>`.
def parseI64 (text : String) : Option Int :=
  let (sign, digits) : Int × List Char :=
    match text.toList with
    | '-' :: digits => (-1, digits)
    | '+' :: digits => (1, digits)
    | digits        => (1, digits)
  let n := sign * Nat.ofDigitChars 10 digits 0
  if digits ≠ [] ∧ digits.all Char.isDigit ∧ -2 ^ 63 ≤ n ∧ n < 2 ^ 63 then some n else none

def encodeMessageCursor (sequence : Int) (id : String) : String :=
  encodeParts [toString sequence, id]

def decodeMessageCursor (cursor : String) : Except KernelError (Int × String) := do
  let text ← decodeCursorText cursor
  match splitOnce '|' text with
  | some (sequence, id) =>
    if id ≠ "" then
      match parseI64 sequence with
      | some sequence => .ok (sequence, id)
      | none          => .error malformedCursor
    else
      .error malformedCursor
  | none => .error malformedCursor

-- `ORDER BY sequence ASC, id ASC`.
def messageKey (m : MessageDto) : Int ×ₗ String :=
  toLex (m.sequence, m.id)

def messageRows (db : Db) : List MessageDto :=
  db.messages.rows.map messageDto

-- `WHERE chat_id = ?`, and with a cursor `AND ((sequence > ?) OR (sequence = ? AND id > ?))`.
def messageSelected (chatId : String) (after : Option (Int × String)) (m : MessageDto) : Bool :=
  m.chatId = chatId &&
    after.all fun a => a.fst < m.sequence || (m.sequence = a.fst && a.snd < m.id)

def selectMessages (db : Db) (chatId : String) (after : Option (Int × String)) : List MessageDto :=
  orderBy messageKey <| (messageRows db).filter <| messageSelected chatId after

def messageCursor (m : MessageDto) : String :=
  encodeMessageCursor m.sequence m.id

def messagesList (db : Db) (request : Payload RequestListMessages) :
    Except KernelError PagedMessages :=
  answer checkRequestListMessages checkPagedMessages request fun req =>
    if (db.chats.get? req.chatId).isNone then
      .error <| chatNotFound req.chatId
    else do
      let limit := pageLimit req.limit
      let after ← req.cursor.mapM decodeMessageCursor
      -- One row past the page tells whether there is more.
      let rows := (selectMessages db req.chatId after).take (limit + 1)
      return {
        items      := rows.take limit
        nextCursor := if limit < rows.length then rows[limit - 1]?.map messageCursor else none
      }

end Messages

section Events

-- The type of an event is the name of an `EventType`, which has a length that the wire allows, and
-- its payload is an object.
def checkEventEnvelope (e : EventEnvelope) (path : String) : List Issue :=
  checkFormat (joinPath path "streamId") isUuid e.streamId ++
  checkMinimum (joinPath path "sequence") 0 e.sequence

def checkPagedGenerationEvents (p : PagedGenerationEvents) (path : String) : List Issue :=
  checkEach (joinPath path "items") (fun path e => checkEventEnvelope e path) p.items

def envelope (runId : String) (e : EventRow) : EventEnvelope :=
  ⟨runId, e.sequence, e.type, e.payload⟩

-- What `generationEvents` reads, checked as it is sent.
def generationEventsList (db : Db) (request : Payload RequestListGenerationEvents) :
    Except KernelError PagedGenerationEvents :=
  answer checkRequestListGenerationEvents checkPagedGenerationEvents request fun req =>
    if (db.runs.get? req.workflowId).isNone then
      .error <| runNotFound req.workflowId
    else
      let limit := pageLimit req.limit
      -- One row past the page tells whether there is more.
      let rows := eventsAfter db req.workflowId (req.afterSequence.getD (-1)) (limit + 1)
      .ok {
        items   := rows.take limit |>.map (envelope req.workflowId)
        hasMore := limit < rows.length
      }

end Events

section RoundTrip

theorem parseI64_toString (h₀ : 0 ≤ n) (h : n < 2 ^ 63) : parseI64 (toString n) = some n := by
  obtain ⟨k, rfl⟩ := Int.eq_ofNat_of_zero_le h₀
  have htext : (toString (k : Int)).toList = Nat.toDigits 10 k := Nat.toList_repr
  have hvalue : Nat.ofDigitChars 10 (Nat.toDigits 10 k) 0 = k :=
    Nat.ofDigitChars_toDigits (by decide) (by decide)
  have hdigit : ∀ c ∈ Nat.toDigits 10 k, c.isDigit := fun c hc =>
    Nat.isDigit_of_mem_toDigits (by decide) (by decide) hc
  have hne : Nat.toDigits 10 k ≠ [] := Nat.toDigits_ne_nil
  rw [parseI64, htext]
  generalize Nat.toDigits 10 k = digits at hvalue hdigit hne
  -- A digit is not a sign.
  split
  case h_1 sign digits' heq =>
    split at heq
    case h_1 => exact absurd (hdigit '-' List.mem_cons_self) <| by decide
    case h_2 => exact absurd (hdigit '+' List.mem_cons_self) <| by decide
    case h_3 =>
      obtain ⟨rfl, rfl⟩ := Prod.mk.inj heq
      have hall := List.all_eq_true.mpr hdigit
      rw [hvalue, one_mul]
      exact if_pos ⟨hne, hall, by omega, h⟩

theorem decodeMessageCursor_encodeMessageCursor {id : String} (h₀ : 0 ≤ n) (h : n < 2 ^ 63)
    (hi : id ≠ "") : decodeMessageCursor (encodeMessageCursor n id) = .ok (n, id) := by
  have hbar : '|' ∉ (toString n).toList := by
    obtain ⟨k, rfl⟩ := Int.eq_ofNat_of_zero_le h₀
    have htext : (toString (k : Int)).toList = Nat.toDigits 10 k := Nat.toList_repr
    rw [htext]
    intro hc
    exact absurd (Nat.isDigit_of_mem_toDigits (by decide) (by decide) hc) <| by decide
  simp only [decodeMessageCursor, encodeMessageCursor, decodeCursorText_encodeParts, bind,
    Except.bind, splitOnce_intercalate hbar, parseI64_toString h₀ h, if_pos hi]

end RoundTrip

end Kernel
