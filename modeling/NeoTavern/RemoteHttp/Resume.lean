import Mathlib
import NeoTavern.RemoteHttp.Reader

namespace RemoteHttp

open Wire Storage Kernel

-- The durable log of a run: its events are numbered from zero, and a terminal one is the last.
structure EventLog where
  entries  : List EventEnvelope
  numbered : Numbered (·.sequence) entries
  ends     : ∀ pre e post, entries = pre ++ e :: post → streamTerminalTypes.contains e.type →
    post = []

-- A poll finds the part of the log that is committed by then.
def Poll.Sees (p : Poll) (log : EventLog) : Prop :=
  match p with
  | .answered rows _ => rows.map envelope <+: log.entries
  | _                => True

instance {p : Poll} {log : EventLog} : Decidable (p.Sees log) := by
  unfold Poll.Sees
  split <;> infer_instance

inductive Answer (log : EventLog)
  | streamed (stream : Bool) (polls : List Poll) (sees : ∀ p ∈ polls, p.Sees log)
  | refused (e : KernelError)

-- A request for the events of the run and the number of frames that reach the client before the
-- connection breaks. Only a first request can be the one that starts the run.
structure Connection (log : EventLog) where
  answer : Answer log
  cut    : Nat

def Answer.frames {log : EventLog} (cursor : Int) : Answer log → List SseFrame
  | .streamed stream polls _ =>
    StreamingResponseReader.respondSseStream { stream, lastSent := cursor } polls
  | .refused e               => respondSseError e

-- What the client puts into `Last-Event-ID`.
def lastEventId (frames : List SseFrame) : Option Nat :=
  (frames.filterMap (·.id)).getLast?

def cursor (afterSequence : Int) (frames : List SseFrame) : Int :=
  resumeCursor (lastEventId frames) (some afterSequence)

-- Everything that the client receives over its connections.
def received (log : EventLog) (afterSequence : Int) (cs : List (Connection log)) : List SseFrame :=
  cs.foldl (fun frames c =>
    frames ++ (c.answer.frames (cursor afterSequence frames)).take c.cut) []

-- The sequence of the last event that the client received.
def lastEvent (afterSequence : Int) (frames : List SseFrame) : Int :=
  ((envelopes frames).getLast?.map (·.sequence)).getD afterSequence

-- The next request continues after the last event that the client received, or the log has no more
-- events for it.
def PicksUp (log : EventLog) (afterSequence : Int) (frames : List SseFrame) : Prop :=
  cursor afterSequence frames = lastEvent afterSequence frames ∨
    log.entries.length ≤ lastEvent afterSequence frames + 1 ∧
      lastEvent afterSequence frames ≤ cursor afterSequence frames

instance {log : EventLog} {frames : List SseFrame} : Decidable (PicksUp log start frames) :=
  inferInstanceAs (Decidable (_ ∨ _))

-- The frames carry the log in its order from the cursor on, each event once, and all of it once the
-- terminal event is there.
structure Exact (log : EventLog) (afterSequence : Int) (frames : List SseFrame) : Prop where
  inOrder : envelopes frames <+: log.entries.drop (afterSequence + 1).toNat
  ends    : ∀ e ∈ envelopes frames, streamTerminalTypes.contains e.type →
    envelopes frames = log.entries.drop (afterSequence + 1).toNat

namespace EventLog

variable {log : EventLog} {c : Int} {rows : List EventRow}

theorem numbered_rows (h : rows.map envelope <+: log.entries) : Numbered (·.sequence) rows := by
  have hn := log.numbered.of_prefix h
  rw [Numbered, List.map_map, List.length_map] at hn
  exact hn

theorem pageItems_prefix (h : rows.map envelope <+: log.entries) (hc : -1 ≤ c) :
    pageItems rows c <+: log.entries.drop (c + 1).toNat := by
  rw [pageItems_eq (numbered_rows h) hc]
  exact (List.take_prefix ..).trans <| h.drop _

-- A part of the log with a terminal event goes to its end.
theorem ends_drop (h : es <+: log.entries.drop n) (he : e ∈ es)
    (ht : streamTerminalTypes.contains e.type) : es = log.entries.drop n := by
  obtain ⟨rest, hr⟩ := h
  have ⟨pre, post, hs⟩ := List.append_of_mem he
  have hlog : log.entries = (log.entries.take n ++ pre) ++ e :: (post ++ rest) := by
    conv_lhs => rw [← List.take_append_drop n log.entries, ← hr, hs]
    simp
  have hnil := log.ends _ _ _ hlog ht
  rw [← hr, (List.append_eq_nil_iff.mp hnil).right, List.append_nil]

end EventLog

namespace StreamingResponseReader

variable {log : EventLog} {r : StreamingResponseReader}

-- A stream that is refused sends no event.
theorem respondSseStream_refused {p : Poll} (hr : p.Refused) (hp : r.pending = []) :
    envelopes (r.respondSseStream (p :: ps)) = [] := by
  have h := produceNextBatch_refused hr hp
  simp only [respondSseStream, h.finished, ↓reduceIte, List.append_nil]
  exact h.envelopes

-- A stream sends a part of the log that starts at its cursor.
theorem respondSseStream_prefix {polls : List Poll} (hs : ∀ p ∈ polls, p.Sees log)
    (hc : -1 ≤ r.lastSent) (hp : r.pending = []) :
    envelopes (r.respondSseStream polls) <+: log.entries.drop (r.lastSent + 1).toNat := by
  induction polls generalizing r
  case nil => exact List.nil_prefix
  case cons p ps ih =>
    cases p
    case revoked =>
      rw [respondSseStream_refused (p := .revoked) trivial hp]
      exact List.nil_prefix
    case failed e =>
      rw [respondSseStream_refused (p := .failed e) trivial hp]
      exact List.nil_prefix
    case answered rows status =>
      have hb : Batch r (r.produceNextBatch (.answered rows status)) _ status :=
        produceNextBatch_answered hp
      have hpre : pageItems rows r.lastSent <+: log.entries.drop (r.lastSent + 1).toNat :=
        EventLog.pageItems_prefix (hs _ List.mem_cons_self) hc
      rw [respondSseStream, envelopes_append, hb.envelopes, log.numbered.drop_eq_append hc hpre,
        ← hb.lastSent]
      refine (List.prefix_append_right_inj _).mpr ?_
      split
      · exact List.nil_prefix
      · refine ih (fun p hm => hs p <| List.mem_cons_of_mem _ hm) ?_ rfl
        rw [drainPending, hb.lastSent, log.numbered.cursorAfter_eq hc hpre]
        omega

end StreamingResponseReader
section Received

variable {log : EventLog} {start : Int} {cs : List (Connection log)}

theorem received_snoc {c : Connection log} : received log start (cs ++ [c]) =
    received log start cs ++
      (c.answer.frames (cursor start (received log start cs))).take c.cut := by
  simp [received]

-- An answer sends a part of the log that starts at the cursor of the request.
theorem Answer.frames_prefix {c : Int} (a : Answer log) (hc : -1 ≤ c) :
    envelopes (a.frames c) <+: log.entries.drop (c + 1).toNat := by
  cases a
  case streamed stream polls sees =>
    exact StreamingResponseReader.respondSseStream_prefix
      (r := { stream, lastSent := c }) sees hc rfl
  case refused e => exact List.nil_prefix

-- A connection that picks up where the client stopped continues the log.
theorem Exact.connect {c : Connection log}
    (h : envelopes frames <+: log.entries.drop (start + 1).toNat) (hs : -1 ≤ start) (hp : PicksUp log start frames) :
    envelopes (frames ++ (c.answer.frames (cursor start frames)).take c.cut) <+:
      log.entries.drop (start + 1).toNat := by
  have hl : lastEvent start frames = start + (envelopes frames).length :=
    log.numbered.cursorAfter_eq hs h
  have hd : log.entries.drop (start + 1).toNat =
      envelopes frames ++ log.entries.drop (lastEvent start frames + 1).toNat :=
    log.numbered.drop_eq_append hs h
  have hc : -1 ≤ cursor start frames := by
    rcases hp with hp | ⟨_, hp⟩ <;> omega
  have ha := (prefix_envelopes <| List.take_prefix c.cut _).trans <| c.answer.frames_prefix hc
  rw [envelopes_append, hd]
  refine (List.prefix_append_right_inj _).mpr ?_
  rcases hp with hp | ⟨hn, hp⟩
  · rw [hp] at ha ⊢
    exact ha
  · have hnil : log.entries.drop (cursor start frames + 1).toNat = [] := by
      rw [List.drop_eq_nil_iff]
      omega
    rw [hnil, List.prefix_nil] at ha
    rw [ha]
    exact List.nil_prefix

-- A client whose requests all pick up where it stopped receives the log in order.
theorem resume_exact (hs : -1 ≤ start)
    (hp : ∀ pre c post, cs = pre ++ c :: post → PicksUp log start (received log start pre)) :
    Exact log start (received log start cs) := by
  have hin : envelopes (received log start cs) <+: log.entries.drop (start + 1).toNat := by
    induction cs using List.reverseRecOn
    case nil => exact List.nil_prefix
    case append_singleton cs c ih =>
      rw [received_snoc]
      refine Exact.connect (ih fun pre d post he => ?_) hs (hp cs c [] rfl)
      exact hp pre d (post ++ [c]) (by rw [he, List.append_assoc, List.cons_append])
  exact ⟨hin, fun e he ht => EventLog.ends_drop hin he ht⟩

end Received

namespace Sample

def rows : List EventRow := [
  ⟨"run", 0, .delta, .delta "a", "2025-01-01T00:00:00Z"⟩,
  ⟨"run", 1, .delta, .delta "b", "2025-01-01T00:00:01Z"⟩,
  ⟨"run", 2, .cancelled, .cancelled, "2025-01-01T00:00:02Z"⟩
]

def log : EventLog where
  entries  := rows.map envelope
  numbered := rfl
  ends     := by
    intro pre e post h ht
    match pre, h with
    | [],        h => simp [rows, envelope] at h; simp [← h.left, streamTerminalTypes] at ht
    | [_],       h => simp [rows, envelope] at h; simp [← h.right.left, streamTerminalTypes] at ht
    | [_, _],    h => simp [rows, envelope] at h; exact h.right.right.right
    | _ :: _ :: _ :: _, h => simp [rows, envelope] at h

-- The live stream ends after the first event, with the answer to a failing poll or without.
def first (fails : Bool) : Connection log where
  answer := .streamed true [.answered (rows.take 1) none, .failed (.internal "poll failed")] (by decide)
  cut    := if fails then 3 else 1

def second : Connection log where
  answer := .streamed false [.answered rows (some .cancelled)] (by decide)
  cut    := 10

end Sample

open Sample

theorem resume_exact_second : Exact log (-1) (received log (-1) [first false, second]) := by
  refine resume_exact (by decide) fun pre c post h => ?_
  match pre, h with
  | [],        _ => decide +kernel
  | [_],       h =>
    obtain ⟨rfl, -⟩ := List.cons.inj h
    decide +kernel
  | _ :: _ :: _, h => simp at h

-- The frames of a failed poll take the identifier of the next event, which the client then skips.
theorem error_frame_skips : ¬Exact log (-1) (received log (-1) [first true, second]) := by
  intro h
  have hn : ¬envelopes (received log (-1) [first true, second]) <+: log.entries.drop 0 := by
    decide +kernel
  exact hn h.inOrder

end RemoteHttp
