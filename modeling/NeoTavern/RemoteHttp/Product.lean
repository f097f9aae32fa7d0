import NeoTavern.Generation.Delivery
import NeoTavern.Generation.Growth
import NeoTavern.RemoteHttp.Reader

namespace RemoteHttp

open Wire Storage Kernel
open Numbered (cursorAfter)

section Dispatch

variable (runId : String) (lastSent : Int)

-- The dispatch of `generation.events` for a poll of the reader.
def pollEvents : KernelM PagedGenerationEvents :=
  generationEvents <| .object ⟨runId, some lastSent, some streamPageLimit⟩

-- The status that the dispatch of `generation.get` tells the reader.
def runStatus (w : World) : Option GenerationStatus :=
  match generationGet (.object ⟨runId⟩) w with
  | (.ok run, _)  => some run.status
  | (.error _, _) => none

-- A poll whose first dispatch the kernel serves in `w` and whose second it serves in `w'`.
def pollAt (w w' : World) : Poll :=
  match pollEvents runId lastSent w with
  | (.ok _, _)    => .answered (w.db.eventsOf runId) (runStatus runId w')
  | (.error e, _) => .failed e

end Dispatch

section Dispatch

variable {runId : String} {lastSent : Int} {w : World}

-- What the answer to a poll tells.
structure Page (runId : String) (lastSent : Int) (db : Db) (page : PagedGenerationEvents) : Prop where
  items  : page.items = pageItems (db.eventsOf runId) lastSent
  cursor : -1 ≤ lastSent

theorem pollEvents_page : Moves (fun _ _ _ => True) (pollEvents runId lastSent)
    (fun page _ => Page runId lastSent w.db page) w := by
  unfold pollEvents generationEvents
  refine (Moves.decodeRequest _ _).bind fun req t _ ⟨hj, hreq, hc⟩ => ?_
  cases hreq
  refine Moves.requireRun.bind fun run u _ ⟨hj', _⟩ => ?_
  refine Moves.query.bind fun rows v _ ⟨_, hrows⟩ => ?_
  rw [World.db_eq <| hj'.trans hj] at hrows
  refine Moves.pure ⟨?_, ?_⟩
  · subst hrows
    rw [pageItems_eventsOf]
    refine List.map_congr_left fun e he => ?_
    have hm := List.mem_of_mem_take <| List.mem_of_mem_take he
    rw [List.mem_mergeSort, List.mem_filter, Db.mem_eventsOf] at hm
    simp [envelope, hm.left.right]
  · simp only [checkRequestListGenerationEvents, List.append_eq_nil_iff] at hc
    simpa [checkOptional, checkMinimum] using hc.left.right

theorem runToDto_status {r : RunRow} :
    Moves (fun _ _ _ => True) (runToDto r) (fun dto _ => dto.status = r.status) w := by
  unfold runToDto
  exact Moves.concatDeltaText.bind fun _ _ _ _ => .pure rfl

theorem generationGet_status : Moves (fun _ _ _ => True) (generationGet (.object ⟨runId⟩))
    (fun run _ => ∃ r, w.db.runs.get? runId = some r ∧ r.status = run.status) w := by
  unfold generationGet
  refine (Moves.decodeRequest _ _).bind fun req t _ ⟨hj, hreq, _⟩ => ?_
  cases hreq
  refine Moves.requireRun.bind fun run u _ ⟨_, hr⟩ => ?_
  rw [World.db_eq hj] at hr
  unfold runResponse
  refine runToDto_status.bind fun dto v _ hs => ?_
  refine (Moves.validate _ _).bind fun _ _ _ _ => ?_
  exact .pure ⟨run, hr, hs.symm⟩

theorem runStatus_eq (h : runStatus runId w = some s) :
    ∃ r, w.db.runs.get? runId = some r ∧ r.status = s := by
  have hg : Moves (fun _ _ _ => True) (generationGet (.object ⟨runId⟩)) _ w := generationGet_status
  unfold runStatus at h
  split at h
  case h_1 run t hrun =>
    obtain ⟨_, r, hr, hs⟩ := (Proc.wp_of_ok hrun).mp hg.wp
    cases h
    exact ⟨r, hr, hs⟩
  case h_2 => cases h

end Dispatch

def toEntry (e : EventEnvelope) : Int × GenerationEvent :=
  (e.sequence, e.payload)

-- The events that the frames carry.
def written (frames : List SseFrame) : List (Int × GenerationEvent) :=
  (envelopes frames).map toEntry

@[simp]
theorem written_append : written (frames ++ frames') = written frames ++ written frames' := by
  simp [written]

-- How a poll goes whose first dispatch falls after the commits `cs` and whose second one falls after
-- the commits `ds` too. A dispatch may also fail before it gets to the writer.
inductive Polled (b : Db) (runId : String) (lastSent : Int) (cs ds : List (Commit Label Db)) :
    Poll → Prop
  | revoked : Polled b runId lastSent cs ds .revoked
  | failed : Polled b runId lastSent cs ds (.failed e)
  | dispatched (h : w.journal = ⟨b, cs⟩) (h' : w'.journal = ⟨b, ds ++ cs⟩) :
    Polled b runId lastSent cs ds (pollAt runId lastSent w w')

-- A reader next to the writer: the commits so far, the reader, and the frames it has written. The
-- identifier of a run is drawn once, so no run starts under it later.
inductive Serves (b : Db) (runId : String) (stream : Bool) (start : Int) :
    List (Commit Label Db) → StreamingResponseReader → List SseFrame → Prop
  | opened : Serves b runId stream start cs { stream, lastSent := start } []
  | commit (h : Serves b runId stream start cs r frames) (hc : c.label ≠ .start runId) :
    Serves b runId stream start (c :: cs) r frames
  | poll (h : Serves b runId stream start cs r frames) (hf : ¬r.finished)
    (hp : Polled b runId r.lastSent cs ds p) (hs : ∀ c ∈ ds, c.label ≠ .start runId) :
    Serves b runId stream start (ds ++ cs) (r.produceNextBatch p).drainPending
      (frames ++ (r.produceNextBatch p).pending)

-- What the reader is told when the kernel serves its dispatches in `db` and in `db'`.
inductive Served (runId : String) (lastSent : Int) (db db' : Db) : Poll → Prop
  | refused (h : p.Refused) : Served runId lastSent db db' p
  | answered {status : Option GenerationStatus} (cursor : -1 ≤ lastSent)
    (known : ∀ s ∈ status, ∃ r, db'.runs.get? runId = some r ∧ r.status = s) :
    Served runId lastSent db db' (.answered (db.eventsOf runId) status)

theorem Polled.served {lastSent : Int} (h : Polled b runId lastSent cs ds p) :
    Served runId lastSent (Journal.state ⟨b, cs⟩) (Journal.state ⟨b, ds ++ cs⟩) p := by
  cases h
  case revoked => exact .refused trivial
  case failed  => exact .refused trivial
  case dispatched w w' hw hw' =>
    have hp : Moves (fun _ _ _ => True) (pollEvents runId lastSent) _ w := pollEvents_page
    have hdb : w.db = Journal.state ⟨b, cs⟩ := by rw [World.db, hw]
    have hdb' : w'.db = Journal.state ⟨b, ds ++ cs⟩ := by rw [World.db, hw']
    unfold pollAt
    split
    case h_1 page t hpage =>
      obtain ⟨_, hq⟩ := (Proc.wp_of_ok hpage).mp hp.wp
      rw [← hdb, ← hdb']
      exact .answered hq.cursor fun s hs => runStatus_eq hs
    case h_2 => exact .refused trivial

-- What the reader has written and where it stands, for the events that are there.
structure Serving (runId : String) (stream : Bool) (start : Int) (db : Db)
    (r : StreamingResponseReader) (frames : List SseFrame) : Prop where
  mode     : r.stream = stream
  pending  : r.pending = []
  progress : start ≤ r.lastSent
  sent     : ∀ x ∈ db.entries runId, start < x.fst → x.fst ≤ r.lastSent → x ∈ written frames
  bound    : ∀ x ∈ written frames, x.fst ≤ r.lastSent
  reach    : r.lastSent = start ∨ Gone db runId ∨ r.lastSent < (db.entries runId).length
  terminal : r.terminal =
    (envelopes frames).any fun e => streamTerminalTypes.contains e.type
  closes   : r.terminal → r.finished
  finished : stream → r.finished = (r.terminal || hasError frames)

section Serving

variable {b : Db} {cs ds : List (Commit Label Db)} {runId : String} {start : Int} {stream : Bool}
  {r : StreamingResponseReader} {frames : List SseFrame} {p : Poll} {j : Journal Label Db}

theorem Serving.opened (db : Db) : Serving runId stream start db { stream, lastSent := start } [] where
  mode         := rfl
  pending      := rfl
  progress     := Int.le_refl _
  sent x _ h l := by
    simp only at l
    omega
  bound        := nofun
  reach        := .inl rfl
  terminal     := rfl
  closes       := nofun
  finished _   := rfl

-- The events that came later are above what was written.
theorem Serving.commits (h : Serving runId stream start (Journal.state ⟨b, cs⟩) r frames)
    (hj : Reachable ⟨b, ds ++ cs⟩) (hs : ∀ c ∈ ds, c.label ≠ .start runId) :
    Serving runId stream start (Journal.state ⟨b, ds ++ cs⟩) r frames := by
  refine { h with sent := fun x hx hl hu => ?sent, reach := ?reach }
  case sent =>
    rcases hj.entries_grow hs with hg | hp
    · rw [hg.entries hj.consistent] at hx
      exact absurd hx List.not_mem_nil
    · rcases h.reach with hr | hg | hr
      · omega
      · rw [(hj.gone hs hg).entries hj.consistent] at hx
        exact absurd hx List.not_mem_nil
      · exact h.sent x ((hj.numbered runId).mem_of_initial hp hx <| by omega) hl hu
  case reach =>
    rcases h.reach with hr | hg | hr
    · exact .inl hr
    · exact .inr <| .inl <| hj.gone hs hg
    · rcases hj.entries_grow hs with hg | hp
      · exact .inr <| .inl hg
      · have := hp.length_le
        exact .inr <| .inr <| by omega

-- The page of a poll is the next part of the log.
theorem page_eq {c : Int} (hj : Reachable j) (hc : -1 ≤ c) :
    (pageItems (j.state.eventsOf runId) c).map toEntry =
      ((j.state.entries runId).drop (c + 1).toNat).take streamPageLimit := by
  have hn : Numbered (·.sequence) (j.state.eventsOf runId) := by
    have := hj.numbered runId
    rw [Numbered, Db.entries, List.map_map, List.length_map] at this
    exact this
  rw [pageItems_eq hn hc, Db.entries, List.map_take, List.map_drop, List.map_map]
  rfl

theorem prefix_page {c : Int} (hj : Reachable j) (hc : -1 ≤ c) :
    (pageItems (j.state.eventsOf runId) c).map toEntry <+:
      (j.state.entries runId).drop (c + 1).toNat :=
  page_eq hj hc ▸ List.take_prefix ..

-- An empty page means that the log ends at the cursor.
theorem page_eq_nil_iff {c : Int} (hj : Reachable j) (hc : -1 ≤ c) :
    pageItems (j.state.eventsOf runId) c = [] ↔ (j.state.entries runId).length ≤ c + 1 := by
  rw [← List.map_eq_nil_iff (f := toEntry), page_eq hj hc, List.take_eq_nil_iff,
    List.drop_eq_nil_iff]
  simp only [streamPageLimit]
  omega

-- A terminal item on a page is the last event of its run.
theorem page_terminal {c : Int} (hj : Reachable j)
    (he : item ∈ pageItems (j.state.eventsOf runId) c)
    (ht : streamTerminalTypes.contains item.type) :
    ∃ es, j.state.entries runId = es ++ [toEntry item] ∧ Stopped j.state runId := by
  have ⟨row, hr, hi⟩ := List.mem_map.mp he
  subst hi
  have hm := List.mem_of_mem_take <| List.mem_of_mem_take hr
  rw [List.mem_mergeSort, List.mem_filter] at hm
  have ⟨es, fs, hs⟩ : ∃ es fs, j.state.entries runId = es ++ toEntry (envelope row) :: fs :=
    List.append_of_mem <| List.mem_map_of_mem hm.left
  have ht : isTerminalEvent row.payload.type := by
    rw [← hj.consistent.type row (Db.mem_eventsOf.mp hm.left).left]
    simpa [streamTerminalTypes, isTerminalEvent, envelope, or_assoc] using ht
  obtain rfl := hj.ends hs ht
  exact ⟨es, hs, hj.stopped_of_terminal (hs ▸ List.mem_append_right _ List.mem_cons_self) ht⟩

theorem cursorAfter_toEntry {items : List EventEnvelope} {c : Int} :
    cursorAfter (·.sequence) c items = cursorAfter Prod.fst c (items.map toEntry) := by
  simp [cursorAfter, Function.comp_def, toEntry]

theorem Serving.refused (h : Serving runId stream start db r frames) (hr : p.Refused) :
    Serving runId stream start db (r.produceNextBatch p).drainPending
      (frames ++ (r.produceNextBatch p).pending) := by
  have hb := r.produceNextBatch_refused hr h.pending
  have hsent : written (r.produceNextBatch p).pending = [] := by
    rw [written, hb.envelopes]
    rfl
  constructor
  case mode     => exact hb.stream.trans h.mode
  case pending  => rfl
  case progress => simpa [hb.lastSent] using h.progress
  case sent     => simpa [hb.lastSent, hsent] using h.sent
  case bound    => simpa [hb.lastSent, hsent] using h.bound
  case reach    => simpa [hb.lastSent] using h.reach
  case terminal => simpa [hb.terminal, hb.envelopes] using h.terminal
  case closes   => exact fun _ => hb.finished
  case finished => simp [hb.finished, hb.hasError]

theorem Serving.answered (h : Serving runId stream start j.state r frames) (hj : Reachable j)
    (hf : ¬r.finished) (hc : -1 ≤ r.lastSent)
    (hb : r.Batch r' (pageItems (j.state.eventsOf runId) r.lastSent) status) :
    Serving runId stream start j.state r'.drainPending (frames ++ r'.pending) := by
  have hn := hj.numbered runId
  have hpre : _ <+: (j.state.entries runId).drop _ := prefix_page hj hc
  have hlast := hb.lastSent.trans cursorAfter_toEntry
  have hlen := hn.cursorAfter_eq hc hpre
  rw [← hlast] at hlen
  have hsent : written r'.pending = (pageItems (j.state.eventsOf runId) r.lastSent).map toEntry := by
    rw [written, hb.envelopes]
  constructor
  case mode    => exact hb.stream.trans h.mode
  case pending => rfl
  case progress =>
    have := h.progress
    simp only [StreamingResponseReader.drainPending_lastSent]
    omega
  case sent =>
    intro x hx hl hu
    rw [written_append, List.mem_append, hsent]
    by_cases hle : x.fst ≤ r.lastSent
    case pos => exact .inl <| h.sent x hx hl hle
    case neg => exact .inr <| hn.mem_page hc hpre hx (by omega) (hlast ▸ hu)
  case bound =>
    intro x hx
    rw [written_append, List.mem_append, hsent] at hx
    simp only [StreamingResponseReader.drainPending_lastSent]
    rcases hx with hx | hx
    · have := h.bound x hx
      omega
    · exact hlast ▸ hn.mem_le_cursorAfter hc hpre hx
  case reach =>
    simp only [StreamingResponseReader.drainPending_lastSent]
    have hle := hpre.length_le
    rw [List.length_drop] at hle
    cases he : (pageItems (j.state.eventsOf runId) r.lastSent).map toEntry
    case nil =>
      simp only [he, List.length_nil, Int.natCast_zero, Int.add_zero] at hlen
      exact hlen ▸ h.reach
    case cons x xs =>
      rw [he, List.length_cons] at hle hlen
      exact .inr <| .inr <| by omega
  case terminal =>
    rw [StreamingResponseReader.drainPending_terminal, hb.terminal, envelopes_append,
      List.any_append, hb.envelopes, h.terminal]
  case closes =>
    intro ht
    rw [StreamingResponseReader.drainPending_terminal] at ht
    simp [hb.finished, ht]
  case finished =>
    intro hs
    have hrs := h.mode.trans hs
    have he := h.finished hs
    rw [Bool.eq_false_of_not_eq_true hf, eq_comm, Bool.or_eq_false_iff] at he
    simp [hb.finished, hb.noError, hrs, he.right, hf]

theorem Serving.poll (h : Serving runId stream start j.state r frames) (hj : Reachable j) (hf : ¬r.finished)
    (hp : Served runId r.lastSent j.state db p) :
    Serving runId stream start j.state (r.produceNextBatch p).drainPending
      (frames ++ (r.produceNextBatch p).pending) := by
  cases hp
  case refused hr         => exact h.refused hr
  case answered hc status =>
    exact h.answered hj hf hc <| r.produceNextBatch_answered h.pending

-- Whatever the order of polls and commits, the reader has written what lies between its cursors.
theorem Serves.serving (h : Serves b runId stream start cs r frames) (hj : Reachable ⟨b, cs⟩) :
    Serving runId stream start (Journal.state ⟨b, cs⟩) r frames := by
  induction h
  case opened => exact .opened _
  case commit cs r frames c _ hc ih =>
    have hj' : Reachable ⟨b, [c] ++ cs⟩ := hj
    exact (ih hj'.suffix).commits hj' (by simpa using hc)
  case poll cs r frames ds p _ hf hp hs ih =>
    exact ((ih hj.suffix).poll hj.suffix hf hp.served).commits hj hs

-- All events of the run above the cursor are among the frames.
def Complete (runId : String) (start : Int) (db : Db) (frames : List SseFrame) : Prop :=
  ∀ x ∈ db.entries runId, start < x.fst → x ∈ written frames

-- The reader that closes without an error has seen all that was there at its last page.
theorem Serving.closed (h : Serving runId false start j.state r frames) (hj : Reachable j)
    (hf : ¬r.finished) (hc : -1 ≤ r.lastSent)
    (hb : r.Batch r' (pageItems (j.state.eventsOf runId) r.lastSent) status) (hf' : r'.finished) :
    Complete runId start j.state (frames ++ r'.pending) ∧
      (Stopped j.state runId ∨ status.any isTerminal) := by
  have hn := hj.numbered runId
  have hs := h.answered hj hf hc hb
  have ht : r.terminal = false := by
    cases ht : r.terminal
    case false => rfl
    case true  => exact absurd (h.closes ht) hf
  rw [hb.finished, Bool.eq_false_of_not_eq_true hf, hb.terminal, ht, h.mode] at hf'
  simp only [Bool.false_or, Bool.not_false, Bool.true_and, Bool.or_eq_true, List.any_eq_true,
    Bool.and_eq_true, List.isEmpty_iff] at hf'
  rcases hf' with ⟨item, hi, ht⟩ | ⟨he, ht⟩
  case inl =>
    have ⟨es, hes, hstop⟩ := page_terminal hj hi ht
    refine ⟨fun x hx hl => hs.sent x hx hl ?_, .inl hstop⟩
    have hle := hn.mem_le_cursorAfter hc (prefix_page hj hc) (List.mem_map_of_mem hi)
    rw [← cursorAfter_toEntry, ← hb.lastSent] at hle
    have hitem : (toEntry item).fst = es.length := by
      have := hn.num_getElem (i := es.length) (by simp [hes])
      simpa [hes] using this
    have hx := hn.mem_num_lt hx
    simp only [hes, List.length_append, List.length_singleton] at hx
    simp only [StreamingResponseReader.drainPending_lastSent]
    omega
  case inr =>
    refine ⟨fun x hx hl => hs.sent x hx hl ?_, .inr ht⟩
    have hlen := (page_eq_nil_iff hj hc).mp he
    have hx := hn.mem_num_lt hx
    rw [StreamingResponseReader.drainPending_lastSent, hb.lastSent, he]
    simp only [cursorAfter, List.getLast?_nil, Option.map_none, Option.getD_none]
    omega

theorem not_refused (hp : r.pending = []) (he : hasError (r.produceNextBatch p).pending = false) :
    ¬p.Refused := by
  intro hr
  rw [(r.produceNextBatch_refused hr hp).hasError] at he
  cases he

-- A resume stream that closes without an error has sent all that is ever committed for the run if
-- and only if nothing was committed for it between the two dispatches of the last poll.
theorem resume_closes (hj : Reachable ⟨b, ds ++ cs⟩) (h : Serves b runId false start cs r frames)
    (hf : ¬r.finished) (hp : Polled b runId r.lastSent cs ds p)
    (hs : ∀ c ∈ ds, c.label ≠ .start runId) (hc : (r.produceNextBatch p).finished)
    (he : hasError (r.produceNextBatch p).pending = false) :
    (∀ es, Reachable ⟨b, es ++ (ds ++ cs)⟩ → (∀ c ∈ es, c.label ≠ .start runId) →
      Complete runId start (Journal.state ⟨b, es ++ (ds ++ cs)⟩)
        (frames ++ (r.produceNextBatch p).pending)) ↔
    ∀ x ∈ (Journal.state ⟨b, ds ++ cs⟩).entries runId, start < x.fst →
      x ∈ (Journal.state ⟨b, cs⟩).entries runId := by
  have hi := h.serving hj.suffix
  have hnr := not_refused hi.pending he
  have hserved := hp.served
  constructor
  case mp =>
    intro hall x hx hl
    have hw : x ∈ written _ := hall [] hj nofun x hx hl
    have hi' := hi.poll hj.suffix hf hserved
    have hle := hi'.bound x hw
    rcases hi'.reach with hr | hg | hr
    · omega
    · rw [(hj.gone hs hg).entries hj.consistent] at hx
      exact absurd hx List.not_mem_nil
    · rcases hj.entries_grow hs with hg | hpre
      · rw [hg.entries hj.consistent] at hx
        exact absurd hx List.not_mem_nil
      · exact (hj.numbered runId).mem_of_initial hpre hx <| by omega
  case mpr =>
    intro hall es hj' hs' x hx hl
    cases hserved
    case refused hr => exact absurd hr hnr
    case answered status hcur hst =>
      have hb : r.Batch _ (pageItems ((Journal.state ⟨b, cs⟩).eventsOf runId) r.lastSent) status :=
        r.produceNextBatch_answered hi.pending
      have ⟨hcomplete, hstop⟩ := hi.closed hj.suffix hf hcur hb hc
      have hstop : Stopped (Journal.state ⟨b, ds ++ cs⟩) runId := by
        rcases hstop with hstop | hstatus
        · exact (hj.stopped hs hstop).left
        · have ⟨s, hs, ht⟩ := Option.any_eq_true .. |>.mp hstatus
          have ⟨row, hrow, hrs⟩ := hst s hs
          intro row' hrow'
          cases hrow.symm.trans hrow'
          exact hrs ▸ ht
      have hx := (hj'.stopped hs' hstop).right x hx
      exact hcomplete x (hall x hx hl) hl

-- Once all events have been written, the next batch of a live stream ends it if and only if a
-- terminal event or an error has been written, or the poll is refused.
theorem live_closes (hj : Reachable ⟨b, cs⟩) (h : Serves b runId true start cs r frames)
    (hw : ∀ x ∈ (Journal.state ⟨b, cs⟩).entries runId, x ∈ written frames)
    (hp : Polled b runId r.lastSent cs ds p) :
    (r.finished ∨ (r.produceNextBatch p).finished) ↔
      (∃ e ∈ envelopes frames, streamTerminalTypes.contains e.type) ∨ hasError frames ∨
        p.Refused := by
  have hi := h.serving hj
  have hfin : r.finished ↔
      (∃ e ∈ envelopes frames, streamTerminalTypes.contains e.type) ∨ hasError frames := by
    rw [hi.finished rfl, hi.terminal, Bool.or_eq_true, List.any_eq_true]
  rw [← or_assoc, ← hfin]
  by_cases hf : r.finished
  case pos => simp [hf]
  case neg =>
    simp only [hf, Bool.false_eq_true, false_or]
    cases hp.served
    case refused hr =>
      exact iff_of_true (r.produceNextBatch_refused hr hi.pending).finished hr
    case answered status hc _ =>
      refine iff_of_false ?_ id
      have hb : r.Batch _ (pageItems ((Journal.state ⟨b, cs⟩).eventsOf runId) r.lastSent) status :=
        r.produceNextBatch_answered hi.pending
      have hempty : pageItems ((Journal.state ⟨b, cs⟩).eventsOf runId) r.lastSent = [] := by
        refine (page_eq_nil_iff hj hc).mpr ?_
        by_contra hlt
        have hn := hj.numbered runId
        have hlen : 0 < ((Journal.state ⟨b, cs⟩).entries runId).length := by omega
        have hx := hi.bound _ <| hw _ <| List.getLast_mem <| List.ne_nil_of_length_pos hlen
        rw [List.getLast_eq_getElem, hn.num_getElem] at hx
        omega
      have hopen : r.terminal = false := by
        cases ht : r.terminal
        case false => rfl
        case true  => exact absurd (hi.closes ht) hf
      simp [hb.finished, hb.terminal, hempty, hopen, hi.mode, hf]

example : hasError [] = false := by
  decide +kernel

end Serving

end RemoteHttp

open Storage Kernel RemoteHttp

namespace Sample

-- The kernel after a run with one delta.
@[irreducible]
def delivered : World :=
  (writerMain "owner" [provider ["Hello"]] 1 <| world [[start]]).snd

theorem delivered_reachable : Reachable delivered.journal := by
  have hw : Reachable (world [[start]]).journal := .fresh rfl rfl
  unfold delivered
  exact hw.session "owner" [provider ["Hello"]] 1

-- The kernel before the last commit of that run.
def almost : World := { delivered with
  journal := ⟨delivered.journal.base, delivered.journal.commits.drop 1⟩
}

-- A world in which the disk is full when the first delta of the run is to be committed.
def full : World := { world [[start]] with
  env := { env with fault := fun n => if n = 10 then some .full else none }
}

-- The kernel after that run.
@[irreducible]
def stranded : World :=
  (writerMain "owner" [provider ["Hello"]] 1 full).snd

theorem stranded_reachable : Reachable stranded.journal := by
  have hw : Reachable full.journal := .fresh rfl rfl
  unfold stranded
  exact hw.session "owner" [provider ["Hello"]] 1

def resumed : StreamingResponseReader where
  stream   := false
  lastSent := 0

def live : StreamingResponseReader where
  stream   := true
  lastSent := -1

-- The last poll of the resumed stream, with its first dispatch in `w`.
def lastPoll (w : World) : Poll :=
  pollAt runId 0 w delivered

-- The reader of the live stream after the first event.
def followed : StreamingResponseReader :=
  live.produceNextBatch <| pollAt runId (-1) almost delivered

-- The reader of the live stream after the second one.
def finished : StreamingResponseReader :=
  followed.drainPending.produceNextBatch <| pollAt runId followed.lastSent delivered delivered

theorem commits_eq : delivered.journal.commits.take 1 ++ almost.journal.commits =
    delivered.journal.commits :=
  List.take_append_drop ..

example : live.lastSent < resumed.lastSent := by
  decide +kernel

theorem no_start : ∀ c ∈ delivered.journal.commits.take 1, c.label ≠ .start runId := by
  decide +kernel

end Sample

open Sample

namespace RemoteHttp

theorem resume_closes_delivered : Complete runId 0 (Journal.state delivered.journal)
    (resumed.produceNextBatch (lastPoll delivered)).pending := by
  have hb : (resumed.produceNextBatch (lastPoll delivered)).finished ∧
      hasError (resumed.produceNextBatch (lastPoll delivered)).pending = false := by
    decide +kernel
  have hp : Polled delivered.journal.base runId 0 delivered.journal.commits [] (lastPoll delivered) :=
    .dispatched rfl rfl
  have h := (resume_closes delivered_reachable .opened nofun hp (by simp) hb.left hb.right).mpr
    fun _ h _ => h
  exact h [] delivered_reachable (by simp)

-- The run ends between the two dispatches, and the stream closes without its last event.
theorem resume_closes_early :
    ¬∀ b cs ds r frames p, Reachable ⟨b, ds ++ cs⟩ → Serves b runId false 0 cs r frames →
      ¬r.finished → Polled b runId r.lastSent cs ds p → (∀ c ∈ ds, c.label ≠ .start runId) →
      (r.produceNextBatch p).finished → hasError (r.produceNextBatch p).pending = false →
      Complete runId 0 (Journal.state ⟨b, ds ++ cs⟩) (frames ++ (r.produceNextBatch p).pending) := by
  intro hall
  have hb : (resumed.produceNextBatch (lastPoll almost)).finished ∧
      hasError (resumed.produceNextBatch (lastPoll almost)).pending = false ∧
      ¬∀ x ∈ delivered.db.entries runId, 0 < x.fst →
        x ∈ written (resumed.produceNextBatch (lastPoll almost)).pending := by
    decide +kernel
  have hj : Reachable ⟨delivered.journal.base,
      delivered.journal.commits.take 1 ++ almost.journal.commits⟩ := by
    rw [commits_eq]
    exact delivered_reachable
  have hp : Polled delivered.journal.base runId 0 almost.journal.commits
      (delivered.journal.commits.take 1) (lastPoll almost) :=
    .dispatched rfl <| by rw [commits_eq]
  have hc := hall _ _ _ resumed [] _ hj .opened nofun hp no_start hb.left hb.right.left
  rw [commits_eq] at hc
  exact hb.right.right hc

theorem live_closes_finished : finished.drainPending.finished ∨
    (finished.drainPending.produceNextBatch .revoked).finished := by
  have hf : followed.finished = false ∧ finished.finished ∧
      (∃ e ∈ envelopes (followed.pending ++ finished.pending),
        streamTerminalTypes.contains e.type) ∧
      ∀ x ∈ delivered.db.entries runId, x ∈ written (followed.pending ++ finished.pending) := by
    decide +kernel
  have hp : Polled delivered.journal.base runId (-1) almost.journal.commits
      (delivered.journal.commits.take 1) (pollAt runId (-1) almost delivered) :=
    .dispatched rfl <| by rw [commits_eq]
  have hp' : Polled delivered.journal.base runId followed.lastSent delivered.journal.commits []
      (pollAt runId followed.lastSent delivered delivered) :=
    .dispatched rfl rfl
  have h : Serves delivered.journal.base runId true (-1) delivered.journal.commits
      followed.drainPending followed.pending := by
    have h : Serves delivered.journal.base runId true (-1) almost.journal.commits live [] := .opened
    have h := h.poll nofun hp no_start
    rwa [commits_eq] at h
  have h : Serves delivered.journal.base runId true (-1) delivered.journal.commits
      finished.drainPending (followed.pending ++ finished.pending) :=
    h.poll (by simp [hf.left]) hp' (by simp)
  have hr : Polled delivered.journal.base runId finished.lastSent delivered.journal.commits []
      .revoked := .revoked
  exact (live_closes delivered_reachable h hf.right.right.right hr).mpr <| .inl hf.right.right.left

-- The run is stuck in its stream, and so is the reader.
theorem live_stays_open : ∃ run, Reachable stranded.journal ∧
    stranded.db.runs.get? runId = some run ∧ ¬isTerminal run.status ∧
    Serves stranded.journal.base runId true (-1) stranded.journal.commits live [] ∧
    (∀ x ∈ stranded.db.entries runId, x ∈ written []) ∧
    Polled stranded.journal.base runId (-1) stranded.journal.commits []
      (pollAt runId (-1) stranded stranded) ∧
    ¬(live.produceNextBatch (pollAt runId (-1) stranded stranded)).finished := by
  have hs : (stranded.db.runs.get? runId).map (·.status) = some .streaming ∧
      stranded.db.entries runId = [] ∧
      ¬(live.produceNextBatch (pollAt runId (-1) stranded stranded)).finished := by
    decide +kernel
  have ⟨run, hr, hst⟩ := Option.map_eq_some_iff.mp hs.left
  refine ⟨run, stranded_reachable, hr, ?_, .opened, ?_, .dispatched rfl rfl, hs.right.right⟩
  · simp [hst, isTerminal]
  · simp [hs.right.left]

example : ¬isTerminal .streaming := by
  decide +kernel

end RemoteHttp
