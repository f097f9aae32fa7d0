import NeoTavern.PluginSdk.Inbound
import NeoTavern.PluginSdk.Window

namespace PluginSdk

-- Whether a call of `write` has returned or thrown.
def WritePhase.isOver : WritePhase → Bool
  | done         => true
  | rejected _ _ => true
  | _            => false

theorem WritePhase.wake_isOver {p : WritePhase} (h : p.isOver) : p.wake = p := by
  cases p
  case waitingForRoom  => cases h
  case waitingForDrain => cases h
  all_goals rfl

namespace StreamOutbound

variable {V : Type} {limits : StreamLimitsConfig} {s t : StreamOutbound} {W : List Bytes}

-- No call of `write` waits.
def Over (s : StreamOutbound) : Prop :=
  ∀ w ∈ s.writes, w.phase.isOver

-- All calls of `write` have returned.
def Settled (s : StreamOutbound) : Prop :=
  ∀ w ∈ s.writes, w.phase = .done

instance : Decidable s.Settled :=
  inferInstanceAs (Decidable (∀ w ∈ _, _))

-- A producer that writes the chunks `W` one after another, each when the call before it is over,
-- and then ends the stream.
def Plays (W : List Bytes) (s : StreamOutbound) : OutboundEvent V → Prop
  | .write chunk => s.Settled ∧ W[s.writes.length]? = some chunk
  | .close       => s.Settled ∧ s.writes.length = W.length
  | .fail _      => False
  | .resume _    => True
  | .credit _    => True

instance {ev : OutboundEvent V} : Decidable (s.Plays W ev) :=
  match ev with
  | .write _                => instDecidableAnd
  | .close                  => instDecidableAnd
  | .fail _                 => .isFalse id
  | .resume _ | .credit _   => .isTrue trivial

-- Chunks that fit into the buffer of the producer together, and into a window one by one.
structure Fits (W : List Bytes) (limits : StreamLimitsConfig) (window : Nat) : Prop where
  chunk  : ∀ c ∈ W, c.length ≤ limits.maxInFlightBytes
  window : ∀ c ∈ W, fits window c
  buffer : bytes W ≤ limits.maxBufferedBytesPerStream

-- What is posted of a stream after its chunks.
def tail (s : StreamOutbound) : List (Envelope V) :=
  if s.ended && s.queue.isEmpty then [.streamEnd s.streamId] else []

-- The producer has posted the chunks `cs`, and no call of `write` has ever waited.
structure Feeding (W : List Bytes) (limits : StreamLimitsConfig) (window : Nat)
    (s : StreamOutbound) (cs : List Bytes) : Prop where
  limit       : s.maxBufferedBytes = limits.maxBufferedBytesPerStream
  settled     : s.Settled
  chunks      : s.chunks <+: W
  queue       : cs ++ s.queue = s.chunks
  seq         : s.seq = cs.length
  queuedBytes : s.queuedBytes = bytes s.chunks
  errored     : s.errored = false
  ended       : s.ended → s.chunks = W
  listed      : s.listed = !(s.ended && s.queue.isEmpty)
  flushed     : window ≤ s.credit → s.queue = []

section Writes

theorem Settled.past (h : s.Settled) : s.Over := by
  intro w hw
  rw [h w hw]
  rfl

theorem wake_over (h : s.Over) : s.wake.writes = s.writes := by
  have hw : ∀ w ∈ s.writes, ({ w with phase := w.phase.wake } : WriteCall) = w := by
    intro w hm
    rw [WritePhase.wake_isOver (h w hm)]
  exact (List.map_congr_left hw).trans (List.map_id _)

theorem Over.setPhase (h : s.Over) : (s.setPhase k .done).Over := by
  intro w hw
  obtain ⟨i, hi⟩ := List.mem_iff_getElem?.mp hw
  rw [StreamOutbound.setPhase, List.getElem?_modify] at hi
  obtain ⟨v, hv, hvw⟩ := Option.map_eq_some_iff.mp hi
  rw [← hvw]
  split
  · rfl
  · exact h v <| List.mem_of_getElem? hv

theorem setPhase_settled (h : s.Settled) : (s.setPhase k .done).writes = s.writes := by
  refine List.ext_getElem? fun i => ?_
  rw [setPhase, List.getElem?_modify]
  cases hw : s.writes[i]?
  case none => rfl
  case some w =>
    have hd := h w <| List.mem_of_getElem? hw
    cases w
    cases hd
    split <;> rfl

theorem Pumped.writes_over {posted : List (Envelope V)} (h : s.Pumped t posted) (hs : s.Over) :
    t.writes = s.writes := by
  rcases h.writes with hw | ⟨_, hw⟩
  · exact hw
  · rw [hw, wake_over hs]

-- A chunk that finds room does not make the call wait.
theorem enqueue_writes {posted : List (Envelope V)} (h : s.enqueue k chunk = (t, posted))
    (hs : s.Over) (hb : s.queuedBytes + chunk.length ≤ s.maxBufferedBytes) :
    t.writes = (s.setPhase k .done).writes := by
  unfold enqueue at h
  generalize hp : pumpOutbound (V := V) { s.setPhase k .done with
    queue       := s.queue ++ [chunk]
    queuedBytes := s.queuedBytes + chunk.length } = r at h
  obtain ⟨u, p⟩ := r
  have hp := pumpOutbound_spec hp
  have hu : u.writes = (s.setPhase k .done).writes := hp.writes_over hs.setPhase
  have hn : ¬u.maxBufferedBytes < u.queuedBytes := by
    have hl : u.maxBufferedBytes = s.maxBufferedBytes := hp.limit
    have hq : u.queuedBytes = s.queuedBytes + chunk.length := hp.queuedBytes
    omega
  dsimp only at h
  rw [if_neg hn] at h
  cases h
  exact hu

end Writes

section Step

variable {cs : List Bytes} {posted : List (Envelope V)} {window : Nat}

-- The step of a producer that posts the chunks `new`.
structure Feeds (W : List Bytes) (limits : StreamLimitsConfig) (window : Nat) (s : StreamOutbound)
    (cs : List Bytes) (t : StreamOutbound) (posted : List (Envelope V)) (new : List Bytes) :
    Prop where
  feeding : t.Feeding W limits window (cs ++ new)
  posted  : chunkEnvelopes s.streamId cs 0 ++ s.tail ++ posted =
    chunkEnvelopes s.streamId (cs ++ new) 0 ++ t.tail

theorem Feeds.silent (h : t.Feeding W limits window cs) (ht : t.tail (V := V) = s.tail) :
    s.Feeds W limits window cs t ([] : List (Envelope V)) [] := by
  constructor
  case feeding => rwa [List.append_nil]
  case posted  => rw [List.append_nil, List.append_nil, ht]

theorem dropWhile_window {credit : Nat} {q : List Bytes} (hw : ∀ c ∈ W, fits window c)
    (hq : ∀ c ∈ q, c ∈ W) (hc : window ≤ credit) : q.dropWhile (fits credit) = [] := by
  refine List.dropWhile_eq_nil_iff.mpr fun c hm => ?_
  have := hw c (hq c hm)
  simp only [fits, Bool.and_eq_true, decide_eq_true_eq] at this ⊢
  omega

theorem chunkEnvelopes_append {streamId : String} : chunkEnvelopes (V := V) streamId (cs ++ ds) 0 =
    chunkEnvelopes streamId cs 0 ++ chunkEnvelopes streamId ds cs.length := by
  simp [chunkEnvelopes, List.zipIdx_append]

theorem Feeding.write (h : s.Feeding W limits window cs) (hf : Fits W limits window)
    (hp : s.Plays (V := V) W (.write chunk)) (ht : s.write limits chunk = (t, posted)) :
    ∃ new, s.Feeds W limits window cs t posted new := by
  obtain ⟨_, hget⟩ := hp
  have hm := List.mem_of_getElem? hget
  have hlen : s.chunks.length = s.writes.length := by simp [StreamOutbound.chunks]
  have hnext : s.chunks ++ [chunk] <+: W := by
    obtain ⟨rest, hr⟩ := h.chunks
    rw [← hr, ← hlen, List.getElem?_append_right le_rfl, Nat.sub_self] at hget
    cases rest
    case nil => cases hget
    case cons c rest =>
      cases hget
      exact ⟨rest, by rw [← hr, List.append_assoc]; rfl⟩
  have hbytes : bytes (s.chunks ++ [chunk]) ≤ bytes W := by
    obtain ⟨rest, hr⟩ := hnext
    rw [← hr, bytes_append _ rest]
    exact Nat.le_add_right ..
  have hended : s.ended = false := by
    cases he : s.ended
    case false => rfl
    case true  =>
      have hle := hnext.length_le
      rw [h.ended he, List.length_append, List.length_singleton] at hle
      omega
  have hroom : s.queuedBytes + chunk.length ≤ s.maxBufferedBytes := by
    have := hf.buffer
    rw [bytes_append, bytes_singleton] at hbytes
    rw [h.queuedBytes, h.limit]
    omega
  unfold StreamOutbound.write at ht
  dsimp only at ht
  rw [if_neg (by simp [hended, h.errored]), if_neg (Nat.not_lt.mpr <| hf.chunk chunk hm),
    if_neg (Nat.not_lt.mpr hroom)] at ht
  have hset : ({ s with writes := s.writes ++ [⟨chunk, .done⟩] } : StreamOutbound).Settled := by
    intro w hw
    rcases List.mem_append.mp hw with hw | hw
    · exact h.settled w hw
    · rw [List.mem_singleton.mp hw]
  have hw : t.writes = s.writes ++ [⟨chunk, .done⟩] :=
    (enqueue_writes ht hset.past hroom).trans <| setPhase_settled hset
  have hc : t.chunks = s.chunks ++ [chunk] := by simp [StreamOutbound.chunks, hw]
  have he := (enqueue_spec ht).of_called
  have hqueue : t.queue = (s.queue ++ [chunk]).dropWhile (fits s.credit) := he.queue
  refine ⟨(s.queue ++ [chunk]).takeWhile (fits s.credit), ?_⟩
  constructor
  case feeding =>
    constructor
    case limit       => rw [he.limit, h.limit]
    case settled     => rw [Settled, hw]; exact hset
    case chunks      => exact hc ▸ hnext
    case queue       =>
      rw [hqueue, List.append_assoc, List.takeWhile_append_dropWhile, ← List.append_assoc, h.queue, hc]
    case seq         => rw [he.seq, h.seq, List.length_append]
    case queuedBytes => rw [he.queuedBytes, h.queuedBytes, hc, bytes_append, bytes_singleton]
    case errored     => rw [he.errored, h.errored]
    case ended       => rw [he.ended, hended]; simp
    case listed      => simp [he.listed, h.listed, he.ended, hended]
    case flushed     =>
      intro hwin
      rw [he.credit] at hwin
      have hmem : ∀ c ∈ s.queue ++ [chunk], c ∈ W := by
        intro c hcm
        refine hnext.subset ?_
        rw [← h.queue, List.append_assoc]
        exact List.mem_append_right _ hcm
      rw [hqueue, dropWhile_window hf.window hmem hwin]
  case posted =>
    rw [he.posted, h.seq, chunkEnvelopes_append]
    simp [tail, he.ended, hended]

theorem Feeding.same (h : s.Feeding W limits window cs) :
    ∃ new, s.Feeds (V := V) W limits window cs s [] new :=
  ⟨[], .silent h rfl⟩

theorem Feeding.resume (h : s.Feeding W limits window cs) (ht : s.resume k = (t, posted)) :
    ∃ new, s.Feeds W limits window cs t posted new := by
  unfold StreamOutbound.resume at ht
  split at ht
  case h_1 chunk hk => cases h.settled _ <| List.mem_of_getElem? hk
  case h_2 chunk hk => cases h.settled _ <| List.mem_of_getElem? hk
  case h_3 =>
    cases ht
    exact h.same

theorem Feeding.close (h : s.Feeding W limits window cs)
    (hp : s.Plays (V := V) W .close) (ht : s.close = (t, posted)) :
    ∃ new, s.Feeds W limits window cs t posted new := by
  have hall : s.chunks = W := h.chunks.eq_of_length <| by simp [StreamOutbound.chunks, hp.right]
  unfold StreamOutbound.close at ht
  split at ht
  case isTrue =>
    cases ht
    exact h.same
  case isFalse hn =>
    have hended : s.ended = false := by
      cases he : s.ended
      case false => rfl
      case true  => simp [he] at hn
    have hlisted : s.listed = true := by simp [h.listed, hended]
    split at ht
    case isTrue hq =>
      cases ht
      refine ⟨[], ?_, ?_⟩
      · rw [List.append_nil]
        exact ⟨h.limit, h.settled, h.chunks, h.queue, h.seq, h.queuedBytes, h.errored, fun _ => hall,
          by simp [hq], h.flushed⟩
      · simp [tail, hended, hq]
    case isFalse hq =>
      cases ht
      refine ⟨[], ?_, ?_⟩
      · rw [List.append_nil]
        exact ⟨h.limit, h.settled, h.chunks, h.queue, h.seq, h.queuedBytes, h.errored, fun _ => hall,
          by simp [hlisted, hq], h.flushed⟩
      · simp [tail, hended, hq]

theorem Feeding.onCredit (h : s.Feeding W limits window cs) (hf : Fits W limits window)
    (hl : s.listed) (ht : s.onCredit n = (t, posted)) :
    ∃ new, s.Feeds W limits window cs t posted new := by
  have hp := pumpOutbound_spec ht
  have hw : t.writes = s.writes := hp.writes_over h.settled.past
  have hc : t.chunks = s.chunks := by rw [StreamOutbound.chunks, hw, StreamOutbound.chunks]
  have htail : s.tail (V := V) = [] := by
    rw [h.listed] at hl
    refine if_neg fun hn => ?_
    rw [hn] at hl
    cases hl
  have hqueue : t.queue = s.queue.dropWhile (fits (s.credit + n)) := hp.queue
  refine ⟨s.queue.takeWhile (fits (s.credit + n)), ?_⟩
  constructor
  case feeding =>
    constructor
    case limit       => rw [hp.limit]; exact h.limit
    case settled     => rw [Settled, hw]; exact h.settled
    case chunks      => exact hc ▸ h.chunks
    case queue       =>
      rw [hqueue, List.append_assoc, List.takeWhile_append_dropWhile, h.queue, hc]
    case seq         => rw [hp.seq, List.length_append, ← h.seq]
    case queuedBytes => rw [hp.queuedBytes, hc]; exact h.queuedBytes
    case errored     => rw [hp.errored]; exact h.errored
    case ended       => rw [hp.ended, hc]; exact h.ended
    case listed      =>
      have hlisted := hp.listed
      simp only [hl, Bool.true_and] at hlisted
      rw [hlisted, hp.ended]
    case flushed     =>
      intro hwin
      rw [hp.credit] at hwin
      have hmem : ∀ c ∈ s.queue, c ∈ W := by
        intro c hcm
        refine h.chunks.subset ?_
        rw [← h.queue]
        exact List.mem_append_right _ hcm
      rw [hqueue, dropWhile_window hf.window hmem hwin]
  case posted =>
    rw [hp.posted, htail, List.append_nil, chunkEnvelopes_append, h.seq, List.append_assoc]
    simp [tail, hp.ended, hp.streamId]

-- The step lemma of the producer.
theorem Feeding.step {ev : OutboundEvent V} (h : s.Feeding W limits window cs)
    (hf : Fits W limits window) (hp : s.Plays W ev) (hl : ∀ n, ev = .credit n → s.listed)
    (ht : ev.step limits s = (t, posted)) : ∃ new, s.Feeds W limits window cs t posted new := by
  cases ev
  case write  => exact h.write hf hp ht
  case resume => exact h.resume ht
  case close  => exact h.close hp ht
  case fail   => exact absurd hp id
  case credit => exact h.onCredit hf (hl _ rfl) ht

end Step

section Idle

-- The producer has no step to make.
def Idle (W : List Bytes) (s : StreamOutbound) : Prop :=
  (∀ w ∈ s.writes, w.phase ≠ .hasRoom ∧ w.phase ≠ .drained) ∧
    (s.Settled → s.writes.length = W.length ∧ s.ended)

instance : Decidable (s.Idle W) :=
  instDecidableAnd

end Idle

section Unblocked

variable {posted : List (Envelope V)}

-- As long as all chunks together fit into the buffer, no call of `write` waits.
def Unblocked (s : StreamOutbound) : Prop :=
  bytes s.chunks ≤ s.maxBufferedBytes → s.Over ∧ s.queuedBytes ≤ bytes s.chunks

theorem Unblocked.same (h : s.Unblocked) (hl : t.maxBufferedBytes = s.maxBufferedBytes)
    (hw : s.Over → t.writes = s.writes) (hc : t.chunks = s.chunks) (hq : t.queuedBytes = s.queuedBytes) :
    t.Unblocked := by
  intro hb
  rw [hc, hl] at hb
  have ⟨ho, hqb⟩ := h hb
  refine ⟨?_, by rwa [hc, hq]⟩
  rw [Over, hw ho]
  exact ho

theorem Over.called (chunk) {p : WritePhase} (h : s.Over) (hp : p.isOver) :
    ({ s with writes := s.writes ++ [⟨chunk, p⟩] } : StreamOutbound).Over := by
  intro w hw
  rcases List.mem_append.mp hw with hw | hw
  · exact h w hw
  · rw [List.mem_singleton.mp hw]
    exact hp

theorem chunks_called {p : WritePhase} :
    ({ s with writes := s.writes ++ [⟨chunk, p⟩] } : StreamOutbound).chunks = s.chunks ++ [chunk] := by
  simp [StreamOutbound.chunks]

theorem Unblocked.rejected {p : WritePhase} (h : s.Unblocked) (hp : p.isOver) :
    ({ s with writes := s.writes ++ [⟨chunk, p⟩] } : StreamOutbound).Unblocked := by
  intro hb
  rw [chunks_called, bytes_append, bytes_singleton] at hb ⊢
  have hb : bytes s.chunks + chunk.length ≤ s.maxBufferedBytes := hb
  have ⟨ho, hq⟩ := h <| by omega
  exact ⟨ho.called _ hp, Nat.le_add_right_of_le hq⟩

theorem Unblocked.write (h : s.Unblocked) (ht : s.write limits chunk = (t, posted)) :
    t.Unblocked := by
  unfold StreamOutbound.write at ht
  dsimp only at ht
  split at ht
  case isTrue => cases ht; exact h.rejected rfl
  case isFalse =>
    split at ht
    case isTrue => cases ht; exact h.rejected rfl
    case isFalse =>
      split at ht
      case isTrue hroom =>
        cases ht
        intro hb
        rw [chunks_called, bytes_append, bytes_singleton] at hb
        have hb : bytes s.chunks + chunk.length ≤ s.maxBufferedBytes := hb
        have ⟨_, hq⟩ := h <| by omega
        omega
      case isFalse hroom =>
        have he := (enqueue_spec ht).of_called
        intro hb
        rw [enqueue_chunks ht, chunks_called, he.limit, bytes_append, bytes_singleton] at hb
        have ⟨ho, hq⟩ := h <| by omega
        have ho := ho.called chunk (p := .done) rfl
        rw [enqueue_chunks ht, chunks_called, he.queuedBytes, bytes_append, bytes_singleton]
        refine ⟨?_, by omega⟩
        rw [Over, enqueue_writes ht ho (by dsimp only; omega)]
        exact ho.setPhase

theorem Unblocked.resume (h : s.Unblocked) (ht : s.resume k = (t, posted)) : t.Unblocked := by
  unfold StreamOutbound.resume at ht
  split at ht
  case h_1 chunk hk =>
    intro hb
    rw [enqueue_chunks ht, (enqueue_spec ht).limit] at hb
    cases (h hb).left _ <| List.mem_of_getElem? hk
  case h_2 chunk hk =>
    cases ht
    intro hb
    rw [chunks_setPhase] at hb
    cases (h hb).left _ <| List.mem_of_getElem? hk
  case h_3 =>
    cases ht
    exact h

theorem Unblocked.step {ev : OutboundEvent V} (h : s.Unblocked)
    (ht : ev.step limits s = (t, posted)) : t.Unblocked := by
  cases ev
  case write  => exact h.write ht
  case resume => exact h.resume ht
  case close  =>
    simp only [OutboundEvent.step, StreamOutbound.close] at ht
    split at ht
    case isTrue  => cases ht; exact h
    case isFalse => split at ht <;> cases ht <;> exact h.same rfl (fun _ => rfl) rfl rfl
  case fail   =>
    simp only [OutboundEvent.step, StreamOutbound.fail] at ht
    split at ht
    all_goals
      cases ht
      exact h.same rfl (fun _ => rfl) rfl rfl
  case credit =>
    have hp := pumpOutbound_spec ht
    exact h.same hp.limit hp.writes_over hp.chunks_eq hp.queuedBytes

theorem Unblocked.dispose (h : s.Unblocked) : s.dispose.Unblocked := by
  rw [StreamOutbound.dispose]
  split
  case isTrue  => exact h.same rfl wake_over chunks_wake rfl
  case isFalse => exact h

end Unblocked
end StreamOutbound

-- Whether a call of `pull` has returned a chunk.
def PullPhase.isChunk : PullPhase → Bool
  | done (some _) => true
  | _             => false

def PullPhase.isResolved : PullPhase → Bool
  | resolved _ => true
  | _          => false

-- What `collect` makes of what its calls of `pull` return.
def collect : List PullPhase → Option Bytes
  | .done (some chunk) :: pulls => (collect pulls).map (chunk ++ ·)
  | .done none :: _             => some []
  | _                           => none

namespace StreamInbound

variable {V : Type} {i i' : StreamInbound V} {rs : List Bytes}

-- A consumer that pulls a chunk once it has the one before, until there is none.
def Plays (i : StreamInbound V) : InboundEvent V → Prop
  | .pull => ∀ p ∈ i.pulls, p.isChunk
  | _     => True

instance {ev : InboundEvent V} : Decidable (i.Plays ev) :=
  match ev with
  | .pull                                        => inferInstanceAs (Decidable (∀ p ∈ _, _))
  | .resume _ | .chunk _ _ | .finish | .error _  => .isTrue trivial

-- Calls of `pull` that have returned the chunks `xs`.
def returned (xs : List Bytes) : List PullPhase :=
  xs.map (.done <| some ·)

-- The calls of `pull` when the chunks `rs` have come: those that have returned the chunks `xs`, and
-- perhaps one more.
inductive Reads (i : StreamInbound V) (rs : List Bytes) : Prop
  | idle (xs : List Bytes) (hp : i.pulls = returned xs) (hr : xs ++ i.buffered = rs)
  | waiting (hp : i.pulls = returned rs ++ [.waiting]) (hb : i.buffered = [])
      (he : i.ended = false)
  | resolved (xs : List Bytes) (c : Bytes)
      (hp : i.pulls = returned xs ++ [.resolved <| some c])
      (hr : xs ++ c :: i.buffered = rs)
  | past (p : PullPhase) (ho : p = .resolved none ∨ p = .done none)
      (hp : i.pulls = returned rs ++ [p]) (hb : i.buffered = [])
      (he : i.ended)

-- The chunks `rs` of a stream have come.
structure Reading (i : StreamInbound V) (rs : List Bytes) : Prop where
  nextSeq  : i.nextSeq = rs.length
  error    : i.error = none
  received : i.totalReceived = bytes rs
  listed   : i.listed = !i.ended
  reads    : i.Reads rs

section Step

theorem Reading.pull (h : i.Reading rs) (hp : i.Plays .pull) : i.pull.fst.Reading rs := by
  have hidle : ∃ xs, i.pulls = returned xs ∧ xs ++ i.buffered = rs := by
    cases h.reads
    case idle xs hpulls hr => exact ⟨xs, hpulls, hr⟩
    case waiting hpulls _ _ =>
      have := hp .waiting (by simp [hpulls])
      cases this
    case resolved xs c hpulls _ =>
      have := hp (.resolved <| some c) (by simp [hpulls])
      cases this
    case past p ho hpulls _ _ =>
      have := hp p (by simp [hpulls])
      rcases ho with rfl | rfl <;> cases this
  obtain ⟨xs, hpulls, hr⟩ := hidle
  unfold StreamInbound.pull
  split
  case h_1 chunk buffered hb =>
    refine ⟨h.nextSeq, h.error, h.received, h.listed, .idle (xs ++ [chunk]) ?_ ?_⟩
    · simp [hpulls, returned]
    · rw [← hr, hb, List.append_assoc]
      rfl
  case h_2 hb =>
    rw [if_neg (by simp [h.error])]
    have hr : xs = rs := by rw [← hr, hb, List.append_nil]
    split
    case isTrue he =>
      refine ⟨h.nextSeq, h.error, h.received, h.listed, .past (.done none) (.inr rfl) ?_ hb he⟩
      rw [← hr, ← hpulls]
    case isFalse he =>
      refine ⟨h.nextSeq, h.error, h.received, h.listed, .waiting ?_ hb (by simpa using he)⟩
      rw [← hr, ← hpulls]

theorem mem_returned (h : p ∈ returned xs) : p.isChunk := by
  have ⟨c, _, hc⟩ := List.mem_map.mp h
  rw [← hc]
  rfl

theorem last_of_resolved (h : (returned xs ++ [p])[k]? = some (.resolved v)) :
    k = xs.length ∧ p = .resolved v := by
  have hlen : (returned xs).length = xs.length := List.length_map _
  by_cases hk : k < (returned xs).length
  case pos =>
    rw [List.getElem?_append_left hk] at h
    cases mem_returned <| List.mem_of_getElem? h
  case neg =>
    rw [List.getElem?_append_right (Nat.not_lt.mp hk)] at h
    have ⟨hlt, hx⟩ := List.getElem?_eq_some_iff.mp h
    simp only [List.length_singleton, List.getElem_singleton] at hlt hx
    exact ⟨by omega, hx⟩

theorem set_last : (returned xs ++ [p]).set xs.length q = returned xs ++ [q] := by
  have hlen : (returned xs).length = xs.length := List.length_map _
  rw [List.set_append_right _ _ hlen.le, hlen, Nat.sub_self]
  rfl

theorem Reading.resume (h : i.Reading rs) : (i.resume k).fst.Reading rs := by
  unfold StreamInbound.resume
  split
  case h_2 => exact h
  case h_1 value hk =>
    rw [if_neg (by simp [h.error])]
    refine ⟨h.nextSeq, h.error, h.received, h.listed, ?_⟩
    cases h.reads
    case idle xs hpulls hr =>
      rw [hpulls] at hk
      cases mem_returned <| List.mem_of_getElem? hk
    case waiting hpulls _ _ =>
      rw [hpulls] at hk
      cases (last_of_resolved hk).right
    case resolved xs c hpulls hr =>
      rw [hpulls] at hk
      obtain ⟨rfl, hv⟩ := last_of_resolved hk
      cases hv
      refine .idle (xs ++ [c]) ?_ (by simp [hr])
      rw [hpulls, set_last]
      simp [returned]
    case past p ho hpulls hb he =>
      rw [hpulls] at hk
      obtain ⟨rfl, hv⟩ := last_of_resolved hk
      obtain rfl : value = none := by
        rcases ho with ho | ho
        · cases ho.symm.trans hv
          rfl
        · cases ho.symm.trans hv
      refine .past (.done none) (.inr rfl) ?_ hb he
      simp [hpulls, set_last]

theorem Reading.onChunk (h : i.Reading rs) (he : i.ended = false)
    (hm : bytes (rs ++ [c]) ≤ i.maxTotalBytes) :
    (i.onChunk rs.length c).Reading (rs ++ [c]) := by
  unfold StreamInbound.onChunk
  rw [if_neg (by simp [he, h.error, h.nextSeq])]
  have hr : i.totalReceived + c.length = bytes (rs ++ [c]) := by
    rw [h.received, bytes_append, bytes_singleton]
  dsimp only
  rw [if_neg (by omega)]
  have hn : i.nextSeq + 1 = (rs ++ [c]).length := by
    rw [h.nextSeq, List.length_append, List.length_singleton]
  have hwait (hn : ∀ p ∈ i.pulls, p ≠ .waiting) : ¬PullPhase.waiting ∈ i.pulls :=
    fun hw => hn _ hw rfl
  have hret {xs} : PullPhase.waiting ∉ returned xs := fun hw => by cases mem_returned hw
  cases h.reads
  case idle xs hpulls hrs =>
    rw [if_neg (by rw [hpulls]; exact hret)]
    refine ⟨hn, h.error, hr, h.listed, .idle xs hpulls ?_⟩
    simp [← hrs]
  case waiting hpulls hb _ =>
    rw [if_pos (by simp [hpulls])]
    refine ⟨hn, h.error, hr, h.listed, .resolved rs c ?_ (by simp [hb])⟩
    have hidx : i.pulls.idxOf .waiting = rs.length := by
      rw [hpulls, List.idxOf_append_of_notMem hret]
      simp [returned]
    rw [hidx, hpulls, set_last]
  case resolved xs d hpulls hrs =>
    have hn' : PullPhase.waiting ∉ i.pulls := by
      rw [hpulls, List.mem_append, List.mem_singleton]
      exact fun hw => hw.elim hret nofun
    rw [if_neg hn']
    refine ⟨hn, h.error, hr, h.listed, .resolved xs d hpulls ?_⟩
    simp [← hrs]
  case past p ho hpulls hb hn =>
    cases he.symm.trans hn

theorem Reading.onEnd (h : i.Reading rs) (he : i.ended = false) : i.onEnd.Reading rs := by
  refine ⟨h.nextSeq, h.error, h.received, rfl, ?_⟩
  have hwake {xs} : (returned xs).map (fun p => if p = .waiting then .resolved none else p) =
      returned xs := by
    refine (List.map_congr_left fun p hp => ?_).trans (List.map_id _)
    rw [if_neg fun hw => by rw [hw] at hp; cases mem_returned hp]
    rfl
  cases h.reads
  case idle xs hpulls hrs =>
    refine .idle xs ?_ hrs
    rw [StreamInbound.onEnd, wake, hpulls, hwake]
  case waiting hpulls hb _ =>
    refine .past (.resolved none) (.inl rfl) ?_ hb rfl
    rw [StreamInbound.onEnd, wake, hpulls, List.map_append, hwake]
    rfl
  case resolved xs d hpulls hrs =>
    refine .resolved xs d ?_ hrs
    rw [StreamInbound.onEnd, wake, hpulls, List.map_append, hwake]
    rfl
  case past p ho hpulls hb hn =>
    cases he.symm.trans hn

theorem Reading.step {ev : InboundEvent V} (h : i.Reading rs) (hp : i.Plays ev)
    (hl : ev = .pull ∨ ∃ k, ev = .resume k) : (ev.step i).fst.Reading rs := by
  rcases hl with rfl | ⟨k, rfl⟩
  · exact h.pull hp
  · exact h.resume

theorem Reading.replenishCredit {limits : StreamLimitsConfig} (h : i.Reading rs) :
    (i.replenishCredit limits).fst.Reading rs := by
  unfold StreamInbound.replenishCredit
  dsimp only
  split
  case isTrue  => exact h
  case isFalse =>
    refine ⟨h.nextSeq, h.error, h.received, h.listed, ?_⟩
    cases h.reads
    case idle xs hp hr       => exact .idle xs hp hr
    case waiting hp hb he    => exact .waiting hp hb he
    case resolved xs c hp hr => exact .resolved xs c hp hr
    case past p ho hp hb he  => exact .past p ho hp hb he

end Step

section Idle

-- The consumer has no step to make.
def Idle (i : StreamInbound V) : Prop :=
  (∀ p ∈ i.pulls, !p.isResolved) ∧ ∃ p ∈ i.pulls, !p.isChunk

instance : Decidable i.Idle :=
  instDecidableAnd

theorem collect_returned : collect (returned xs ++ [.done none]) = some xs.flatten := by
  induction xs
  case nil          => rfl
  case cons x xs ih =>
    have h : collect (returned (x :: xs) ++ [.done none]) =
        (collect (returned xs ++ [.done none])).map (x ++ ·) := rfl
    rw [h, ih]
    rfl

theorem Reading.collected (h : i.Reading rs) (he : i.ended) (hi : i.Idle) :
    collect i.pulls = some rs.flatten := by
  have ⟨hres, p, hp, hn⟩ := hi
  cases h.reads
  case idle xs hpulls hr =>
    rw [hpulls] at hp
    simp [mem_returned hp] at hn
  case waiting hpulls _ hend =>
    cases he.symm.trans hend
  case resolved xs c hpulls hr =>
    have := hres (.resolved <| some c) (by simp [hpulls])
    cases this
  case past q ho hpulls _ _ =>
    rcases ho with rfl | rfl
    · have := hres (.resolved none) (by simp [hpulls])
      cases this
    · rw [hpulls, collect_returned]

end Idle
end StreamInbound
end PluginSdk
