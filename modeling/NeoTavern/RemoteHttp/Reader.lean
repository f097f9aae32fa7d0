import NeoTavern.Kernel.Generation
import NeoTavern.Lib.Numbered

namespace RemoteHttp

open Wire Storage Kernel

inductive FrameData
  | envelope (e : EventEnvelope)
  | error (e : KernelError)
  | unauthorized
  | empty
  deriving DecidableEq

structure SseFrame where
  event : String
  id    : Option Nat
  data  : FrameData
  deriving DecidableEq

def eventName : EventType → String
  | .delta          => "generation.delta"
  | .checkpoint     => "generation.checkpoint"
  | .completed      => "generation.completed"
  | .failed         => "generation.failed"
  | .cancelled      => "generation.cancelled"
  | .consumerLagged => "generation.consumer_lagged"

def encodeEnvelopeFrame (e : EventEnvelope) : SseFrame where
  event := eventName e.type
  id    := if 0 ≤ e.sequence then some e.sequence.toNat else none
  data  := .envelope e

def encodeErrorFrame (sequence : Nat) (data : FrameData) : SseFrame :=
  ⟨"error", some sequence, data⟩

def encodeTerminalFrame (sequence : Nat) : SseFrame :=
  ⟨"stream.closed", some sequence, .empty⟩

def i64Max : Int := 2 ^ 63 - 1

def u64Max : Nat := 2 ^ 64 - 1

def streamPageLimit : Nat := 200

def streamTerminalTypes : List EventType := [.completed, .failed, .cancelled]

-- `stream` tells whether the reader holds the handle of a live stream.
structure StreamingResponseReader where
  stream   : Bool
  lastSent : Int
  pending  : List SseFrame := []
  finished : Bool          := false
  terminal : Bool          := false
  deriving DecidableEq

-- What one poll of a reader meets: a credential that was revoked, a dispatch of `generation.events`
-- that fails, or the rows of the run and then the status that `generation.get` answers, if any.
inductive Poll
  | revoked
  | failed (e : KernelError)
  | answered (rows : List EventRow) (status : Option GenerationStatus)
  deriving DecidableEq

-- The poll ends with an error frame.
def Poll.Refused : Poll → Prop
  | .revoked | .failed _ => True
  | .answered _ _        => False

def envelope (e : EventRow) : EventEnvelope :=
  ⟨e.runId, e.sequence, e.type, e.payload⟩

-- The items of the page that `generation.events` answers.
def pageItems (rows : List EventRow) (after : Int) : List EventEnvelope :=
  rows.filter (after < ·.sequence) |>.mergeSort (·.sequence ≤ ·.sequence)
    |>.take (streamPageLimit + 1) |>.take streamPageLimit |>.map envelope

namespace StreamingResponseReader

variable (r : StreamingResponseReader)

def nextSequence : Nat :=
  let next := min (r.lastSent + 1) i64Max
  if next < 0 then u64Max else next.toNat

def closeStream : StreamingResponseReader := { r with
  pending  := r.pending ++ [encodeTerminalFrame r.nextSequence]
  finished := true
}

def closeWithError (data : FrameData) : StreamingResponseReader :=
  { r with pending := r.pending ++ [encodeErrorFrame r.nextSequence data] }.closeStream

def writeItem (item : EventEnvelope) : StreamingResponseReader := { r with
  pending  := r.pending ++ [encodeEnvelopeFrame item]
  lastSent := item.sequence
  terminal := r.terminal || streamTerminalTypes.contains item.type
}

def produceNextBatch : Poll → StreamingResponseReader
  | .revoked              => r.closeWithError .unauthorized
  | .failed e             => r.closeWithError (.error e)
  | .answered rows status =>
    let items := pageItems rows r.lastSent
    let r' := items.foldl writeItem r
    if r'.terminal then
      r'.closeStream
    else if !r.stream && items.isEmpty && status.any isTerminal then
      -- Resume at or after the end of the log: the run emits nothing more.
      r'.closeStream
    else
      r'

def drainPending : StreamingResponseReader :=
  { r with pending := [] }

-- The frames that go to the client while the reader meets the polls.
def respondSseStream (r : StreamingResponseReader) : List Poll → List SseFrame
  | []      => []
  | p :: ps =>
    let r' := r.produceNextBatch p
    r'.pending ++ if r'.finished then [] else respondSseStream r'.drainPending ps

end StreamingResponseReader

-- The answer to a request that is refused before any stream is opened.
def respondSseError (e : KernelError) : List SseFrame :=
  [encodeErrorFrame 0 (.error e), encodeTerminalFrame 1]

-- The cursor of a resume: the header wins over the payload, and an over-wide one saturates.
def resumeCursor (lastEventId : Option Nat) (afterSequence : Option Int) : Int :=
  match lastEventId with
  | some id => min id i64Max
  | none    => afterSequence.getD (-1)

-- The envelopes among frames.
def envelopes (frames : List SseFrame) : List EventEnvelope :=
  frames.filterMap fun f =>
    match f.data with
    | .envelope e => some e
    | _           => none

section Envelopes

variable {frames : List SseFrame}

@[simp]
theorem envelopes_append : envelopes (frames ++ frames') = envelopes frames ++ envelopes frames' :=
  List.filterMap_append

@[simp]
theorem envelopes_envelopeFrames : envelopes (items.map encodeEnvelopeFrame) = items := by
  induction items
  case nil            => rfl
  case cons item _ ih => exact congrArg (item :: ·) ih

@[simp]
theorem envelopes_terminalFrame : envelopes [encodeTerminalFrame n] = [] :=
  rfl

-- There is an error frame.
def hasError (frames : List SseFrame) : Bool :=
  frames.any (·.event = "error")

@[simp]
theorem hasError_append : hasError (frames ++ frames') = (hasError frames || hasError frames') :=
  List.any_append

theorem hasError_envelopeFrames {items : List EventEnvelope} :
    hasError (items.map encodeEnvelopeFrame) = false := by
  rw [hasError, List.any_map, List.any_eq_false]
  intro item _
  cases ht : item.type <;> simp [encodeEnvelopeFrame, eventName, ht]

@[simp]
theorem hasError_terminalFrame : hasError [encodeTerminalFrame n] = false := by
  simp [hasError, encodeTerminalFrame]

theorem prefix_envelopes (h : frames <+: frames') : envelopes frames <+: envelopes frames' :=
  h.filterMap _

end Envelopes

-- The rows that the kernel reads for a page are those of the page and one more.
theorem pageItems_eventsOf {db : Db} : pageItems (db.eventsOf runId) after =
    ((eventsAfter db runId after (streamPageLimit + 1)).take streamPageLimit).map envelope :=
  rfl

theorem pageItems_eq {rows : List EventRow} {c : Int} (h : Numbered (·.sequence) rows)
    (hc : -1 ≤ c) :
    pageItems rows c = ((rows.map envelope).drop (c + 1).toNat).take streamPageLimit := by
  unfold pageItems
  rw [h.filter_lt hc, h.mergeSort_drop, List.take_take, List.map_take, List.map_drop,
    Nat.min_eq_left (Nat.le_succ _)]

namespace StreamingResponseReader

variable {r : StreamingResponseReader} {items : List EventEnvelope}

@[simp]
theorem drainPending_stream : r.drainPending.stream = r.stream :=
  rfl

@[simp]
theorem drainPending_lastSent : r.drainPending.lastSent = r.lastSent :=
  rfl

@[simp]
theorem drainPending_finished : r.drainPending.finished = r.finished :=
  rfl

@[simp]
theorem drainPending_terminal : r.drainPending.terminal = r.terminal :=
  rfl

-- What the frames of a page do to the reader.
structure Writes (r r' : StreamingResponseReader) (items : List EventEnvelope) : Prop where
  stream   : r'.stream = r.stream
  lastSent : r'.lastSent = (items.getLast?.map (·.sequence)).getD r.lastSent
  pending  : r'.pending = r.pending ++ items.map encodeEnvelopeFrame
  finished : r'.finished = r.finished
  terminal : r'.terminal = (r.terminal || items.any fun e => streamTerminalTypes.contains e.type)

theorem foldl_writeItem : Writes r (items.foldl writeItem r) items := by
  induction items generalizing r
  case nil => exact ⟨rfl, rfl, by simp, rfl, by simp⟩
  case cons item items ih =>
    have h : Writes (r.writeItem item) _ items := ih
    refine ⟨h.stream, ?_, ?_, h.finished, ?_⟩
    · rw [List.foldl_cons, h.lastSent, List.getLast?_cons]
      cases items.getLast? <;> rfl
    · rw [List.foldl_cons, h.pending, List.map_cons]
      simp [writeItem]
    · rw [List.foldl_cons, h.terminal, List.any_cons, ← Bool.or_assoc]
      rfl

-- The frames of one answered poll and the reader after it.
structure Batch (r r' : StreamingResponseReader) (items : List EventEnvelope)
    (status : Option GenerationStatus) : Prop where
  stream    : r'.stream = r.stream
  lastSent  : r'.lastSent = Numbered.cursorAfter (·.sequence) r.lastSent items
  envelopes : envelopes r'.pending = items
  noError   : hasError r'.pending = false
  terminal  : r'.terminal = (r.terminal || items.any fun e => streamTerminalTypes.contains e.type)
  finished  : r'.finished =
    (r.finished || r'.terminal || (!r.stream && items.isEmpty && status.any isTerminal))

theorem produceNextBatch_answered {rows : List EventRow} {status : Option GenerationStatus}
    (hp : r.pending = []) :
    Batch r (r.produceNextBatch (.answered rows status)) (pageItems rows r.lastSent) status := by
  have hw : Writes r _ (pageItems rows r.lastSent) := foldl_writeItem
  have he : hasError ((pageItems rows r.lastSent).map encodeEnvelopeFrame) = false :=
    hasError_envelopeFrames
  simp only [produceNextBatch]
  split
  case isTrue ht =>
    refine ⟨hw.stream, hw.lastSent, ?_, ?_, hw.terminal, ?_⟩
    · simp [closeStream, hw.pending, hp]
    · simp [closeStream, hw.pending, hp, he]
    · simp [closeStream, ht]
  case isFalse ht =>
    split
    case isTrue hc =>
      refine ⟨hw.stream, hw.lastSent, ?_, ?_, hw.terminal, ?_⟩
      · simp [closeStream, hw.pending, hp]
      · simp [closeStream, hw.pending, hp, he]
      · rw [hc, Bool.or_true]
        rfl
    case isFalse hc =>
      refine ⟨hw.stream, hw.lastSent, ?_, ?_, hw.terminal, ?_⟩
      · simp [hw.pending, hp]
      · simp [hw.pending, hp, he]
      · rw [Bool.eq_false_of_not_eq_true ht, Bool.eq_false_of_not_eq_true hc, hw.finished]
        simp

-- The frames of a poll that is refused.
structure Refusal (r r' : StreamingResponseReader) : Prop where
  stream    : r'.stream = r.stream
  lastSent  : r'.lastSent = r.lastSent
  envelopes : envelopes r'.pending = []
  hasError  : hasError r'.pending = true
  terminal  : r'.terminal = r.terminal
  finished  : r'.finished = true

theorem closeWithError_refusal {data : FrameData} (hd : ∀ e, data ≠ .envelope e)
    (hp : r.pending = []) : Refusal r (r.closeWithError data) := by
  refine ⟨rfl, rfl, ?_, ?_, rfl, rfl⟩
  · simp only [closeWithError, closeStream, hp]
    cases data
    case envelope e => exact absurd rfl (hd e)
    all_goals rfl
  · simp [closeWithError, closeStream, RemoteHttp.hasError, encodeErrorFrame]

theorem produceNextBatch_refused {p : Poll} (hr : p.Refused) (hp : r.pending = []) :
    Refusal r (r.produceNextBatch p) := by
  cases p
  case revoked =>
    rw [produceNextBatch]
    exact closeWithError_refusal (by simp) hp
  case failed e =>
    rw [produceNextBatch]
    exact closeWithError_refusal (by simp) hp
  case answered => exact absurd hr id

end StreamingResponseReader
end RemoteHttp
