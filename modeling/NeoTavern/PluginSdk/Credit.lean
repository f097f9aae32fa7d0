import NeoTavern.PluginSdk.Outbound

namespace PluginSdk

-- What has become of the chunk of a call of `write`.
inductive WriteKind
  | waiting
  | enqueued
  | rejected
  deriving DecidableEq

def WritePhase.kind : WritePhase → WriteKind
  | waitingForRoom | hasRoom         => .waiting
  | waitingForDrain | drained | done => .enqueued
  | rejected _ _                     => .rejected

@[simp]
theorem WritePhase.kind_wake {p : WritePhase} : p.wake.kind = p.kind := by
  cases p <;> rfl

namespace StreamOutbound

variable {V : Type} {limits : StreamLimitsConfig} {s t : StreamOutbound}

def log (s : StreamOutbound) : List (Bytes × WriteKind) :=
  s.writes.map fun w => (w.chunk, w.phase.kind)

-- The chunks that have come into the queue, in the order of the calls.
def written (s : StreamOutbound) : List Bytes :=
  (s.log.filter (·.snd = .enqueued)).map (·.fst)

-- The chunks that have not been rejected, in the order of the calls.
section Log

@[simp]
theorem log_wake : s.wake.log = s.log := by
  simp [wake, log, Function.comp_def]

theorem log_setPhase {p : WritePhase} :
    (s.setPhase k p).log = s.log.modify k fun x => (x.fst, p.kind) := by
  apply List.ext_getElem?
  intro i
  simp only [log, setPhase, List.getElem?_map, List.getElem?_modify]
  cases s.writes[i]? <;> simp
  split <;> rfl

theorem Pumped.log {posted : List (Envelope V)} (h : s.Pumped t posted) : t.log = s.log := by
  rcases h.writes with hw | ⟨_, hw⟩
  · rw [StreamOutbound.log, StreamOutbound.log, hw]
  · rw [StreamOutbound.log, hw]
    exact log_wake

end Log

-- What `enqueue` does to a stream, and what it posts.
structure Enqueued (s : StreamOutbound) (k : Nat) (chunk : Bytes) (t : StreamOutbound)
    (posted : List (Envelope V)) : Prop where
  streamId    : t.streamId = s.streamId
  limit       : t.maxBufferedBytes = s.maxBufferedBytes
  credit      : t.credit = s.credit
  queue       : t.queue = (s.queue ++ [chunk]).dropWhile (fits s.credit)
  queuedBytes : t.queuedBytes = s.queuedBytes + chunk.length
  seq         : t.seq = s.seq + ((s.queue ++ [chunk]).takeWhile (fits s.credit)).length
  ended       : t.ended = s.ended
  errored     : t.errored = s.errored
  listed      : t.listed = (s.listed && !(s.ended && t.queue.isEmpty))
  posted      : posted =
    chunkEnvelopes s.streamId ((s.queue ++ [chunk]).takeWhile (fits s.credit)) s.seq ++
      if s.ended && t.queue.isEmpty then [.streamEnd s.streamId] else []

theorem enqueue_spec {posted : List (Envelope V)} (h : s.enqueue k chunk = (t, posted)) :
    s.Enqueued k chunk t posted := by
  unfold enqueue at h
  generalize hp : pumpOutbound (V := V) { s.setPhase k .done with
    queue       := s.queue ++ [chunk]
    queuedBytes := s.queuedBytes + chunk.length } = r at h
  obtain ⟨u, p⟩ := r
  have hp := pumpOutbound_spec hp
  dsimp only at h
  split at h
  all_goals
    cases h
    exact ⟨hp.streamId, hp.limit, hp.credit, hp.queue, hp.queuedBytes, hp.seq, hp.ended, hp.errored,
      hp.listed, hp.posted⟩

theorem enqueue_log {posted : List (Envelope V)} (h : s.enqueue k chunk = (t, posted))
    (he : s.errored = false) : t.log = s.log.modify k fun x => (x.fst, .enqueued) := by
  unfold enqueue at h
  generalize hp : pumpOutbound (V := V) { s.setPhase k .done with
    queue       := s.queue ++ [chunk]
    queuedBytes := s.queuedBytes + chunk.length } = r at h
  obtain ⟨u, p⟩ := r
  have hp := pumpOutbound_spec hp
  have hu : u.log = s.log.modify k fun x => (x.fst, .enqueued) := hp.log.trans log_setPhase
  dsimp only at h
  split at h
  case isTrue =>
    cases h
    rw [hp.errored.trans he, if_neg (by simp), log_setPhase, hu, List.modify_modify_eq]
    rfl
  case isFalse =>
    cases h
    exact hu

-- The chunks that the credit covers one by one are covered together.
def Covered (credit : Nat) (chunks : List Bytes) : Prop :=
  bytes (chunks.takeWhile (fits credit)) ≤ credit

instance : Decidable (Covered n chunks) :=
  Nat.decLe ..

-- Whether `write` puts a chunk into the queue at once.
def admits (limits : StreamLimitsConfig) (chunk : Bytes) (s : StreamOutbound) : Bool :=
  !(s.ended || s.errored) && chunk.length ≤ limits.maxInFlightBytes &&
    s.queuedBytes + chunk.length ≤ s.maxBufferedBytes

-- The writer waits for one call of `write` before it makes the next one, does not close the stream
-- while a call waits, and writes no more than the credit covers.
def Orderly (limits : StreamLimitsConfig) (s : StreamOutbound) : OutboundEvent V → Prop
  | .write chunk  => s.admits limits chunk →
    (∀ x ∈ s.log, x.snd ≠ .waiting) ∧ Covered s.credit (s.written ++ [chunk])
  | .resume k     => ∀ chunk, s.writes[k]? = some ⟨chunk, .hasRoom⟩ →
    s.listed ∧ (∀ x ∈ s.log.take k, x.snd ≠ .waiting) ∧ Covered s.credit (s.written ++ [chunk])
  | .credit bytes => Covered (s.credit + bytes) s.written
  | .close        => True
  | .fail _       => True

def inOrder (log : List (Bytes × WriteKind)) : Prop :=
  log.Pairwise fun x y => x.snd = .waiting → y.snd ≠ .enqueued

-- The chunks `cs` of a stream have been posted.
structure Sending (s : StreamOutbound) (cs : List Bytes) : Prop where
  seq     : s.seq = cs.length
  written : cs ++ s.queue = s.written
  covered : bytes cs ≤ s.credit
  fit     : ∀ c ∈ cs, fits s.credit c
  order   : inOrder s.log
  closed  : s.listed = false → s.ended ∨ s.errored
  stopped : s.errored ∨ s.ended ∧ s.queue = [] → s.listed = false

section Sending

variable {cs : List Bytes}

theorem fits_mono {credit : Nat} (h : fits credit c) : fits (credit + n) c := by
  simp only [fits, Bool.and_eq_true, decide_eq_true_eq] at h ⊢
  omega

theorem takeWhile_posted {credit : Nat} {queue : List Bytes} (h : ∀ c ∈ cs, fits credit c) :
    (cs ++ queue).takeWhile (fits credit) = cs ++ queue.takeWhile (fits credit) :=
  List.takeWhile_append_of_pos h

theorem Sending.of_enqueued {posted : List (Envelope V)} (hs : s.Sending cs)
    (h : s.Enqueued k chunk t posted) (hw : t.written = s.written ++ [chunk]) (ho : inOrder t.log)
    (hc : Covered s.credit (s.written ++ [chunk])) (hl : s.listed) :
    t.Sending (cs ++ (s.queue ++ [chunk]).takeWhile (fits s.credit)) := by
  have he : s.errored = false := by
    cases he : s.errored
    case false => rfl
    case true  => simp [hs.stopped (.inl he)] at hl
  constructor
  case seq     => rw [h.seq, hs.seq, List.length_append]
  case written =>
    rw [h.queue, List.append_assoc, List.takeWhile_append_dropWhile, ← List.append_assoc, hs.written,
      hw]
  case covered =>
    rw [Covered, ← hs.written, List.append_assoc, takeWhile_posted hs.fit] at hc
    rwa [h.credit]
  case fit =>
    intro c hm
    rw [h.credit]
    rcases List.mem_append.mp hm with hm | hm
    · exact hs.fit c hm
    · exact List.mem_takeWhile_imp hm
  case order  => exact ho
  case closed =>
    intro hn
    rw [h.listed, hl] at hn
    rw [h.ended]
    simp_all
  case stopped =>
    rw [h.errored, h.ended, he, h.listed]
    rintro (hn | ⟨hn, hq⟩)
    · cases hn
    · simp [hn, hq]

theorem Sending.of_credit {posted : List (Envelope V)} (hs : s.Sending cs)
    (h : ({ s with credit := s.credit + n } : StreamOutbound).Pumped t posted)
    (hc : Covered (s.credit + n) s.written) (hl : s.listed) :
    t.Sending (cs ++ s.queue.takeWhile (fits <| s.credit + n)) := by
  have he : s.errored = false := by
    cases he : s.errored
    case false => rfl
    case true  => simp [hs.stopped (.inl he)] at hl
  have hlog : t.log = s.log := h.log
  have hfit : ∀ c ∈ cs, fits (s.credit + n) c := fun c hm => fits_mono <| hs.fit c hm
  constructor
  case seq     => rw [h.seq, hs.seq, List.length_append]
  case written =>
    rw [h.queue, List.append_assoc, List.takeWhile_append_dropWhile, hs.written, StreamOutbound.written,
      StreamOutbound.written, hlog]
  case covered =>
    rw [Covered, ← hs.written, takeWhile_posted hfit] at hc
    rwa [h.credit]
  case fit =>
    intro c hm
    rw [h.credit]
    rcases List.mem_append.mp hm with hm | hm
    · exact hfit c hm
    · exact List.mem_takeWhile_imp hm
  case order  => exact hlog ▸ hs.order
  case closed =>
    intro hn
    rw [h.listed] at hn
    rw [h.ended]
    simp_all
  case stopped =>
    rw [h.errored, h.ended, h.listed]
    rintro (hn | ⟨hn, hq⟩)
    · simp [he] at hn
    · have hn : s.ended = true := hn
      simp [hn, hq]

-- A call that ends the wait of nobody changes nothing but its own entry.
theorem Sending.of_log (hs : s.Sending cs) (ht : t = { s with writes := t.writes })
    (hw : t.written = s.written) (ho : inOrder t.log) : t.Sending cs := by
  rw [ht] at hw ho ⊢
  exact ⟨hs.seq, hs.written.trans hw.symm, hs.covered, hs.fit, ho, hs.closed, hs.stopped⟩

end Sending

section Calls

variable {cs : List Bytes} {chunk : Bytes}

theorem log_called {p : WritePhase} : ({ s with writes := s.writes ++ [⟨chunk, p⟩] } :
    StreamOutbound).log = s.log ++ [(chunk, p.kind)] := by
  simp [log]

theorem written_called {p : WritePhase} : ({ s with writes := s.writes ++ [⟨chunk, p⟩] } :
    StreamOutbound).written = s.written ++ if p.kind = .enqueued then [chunk] else [] := by
  rw [written, log_called, List.filter_append, List.map_append, ← written]
  split
  case isTrue h  => simp [h]
  case isFalse h => simp [h]

theorem inOrder_append (h : inOrder l) (hx : y.snd = .enqueued → ∀ x ∈ l, x.snd ≠ .waiting) :
    inOrder (l ++ [y]) := by
  refine List.pairwise_append.mpr ⟨h, List.pairwise_singleton _ _, fun x hm z hz hw hn => ?_⟩
  obtain rfl := List.mem_singleton.mp hz
  exact hx hn x hm hw

theorem Sending.called {p : WritePhase} (hs : s.Sending cs) (hp : p.kind ≠ .enqueued) :
    ({ s with writes := s.writes ++ [⟨chunk, p⟩] } : StreamOutbound).Sending cs := by
  refine hs.of_log rfl ?_ ?_
  · rw [written_called, if_neg hp, List.append_nil]
  · rw [log_called]
    exact inOrder_append hs.order fun h => absurd h hp

-- The only call that waits before the chunks of all others.
theorem inOrder_enqueue (h : inOrder (l₁ ++ (chunk, .waiting) :: l₂))
    (hw : ∀ x ∈ l₁, x.snd ≠ .waiting) : inOrder (l₁ ++ (chunk, .enqueued) :: l₂) := by
  have ⟨h₁, h₂, _⟩ := List.pairwise_append.mp h
  refine List.pairwise_append.mpr ⟨h₁, ?_, fun x hm _ _ hx => absurd hx <| hw x hm⟩
  refine List.pairwise_cons.mpr ⟨fun y _ hx => ?_, (List.pairwise_cons.mp h₂).right⟩
  cases hx

theorem enqueued_of_inOrder (h : inOrder (l₁ ++ (chunk, .waiting) :: l₂)) :
    l₂.filter (·.snd = .enqueued) = [] := by
  have ⟨_, h₂, _⟩ := List.pairwise_append.mp h
  refine List.filter_eq_nil_iff.mpr fun x hm => ?_
  simp [(List.pairwise_cons.mp h₂).left x hm rfl]

-- The log around a call of `write` that waits.
theorem log_split (h : s.writes[k]? = some ⟨chunk, .hasRoom⟩) :
    ∃ l₁ l₂, s.log = l₁ ++ (chunk, .waiting) :: l₂ ∧ l₁ = s.log.take k ∧ ∀ kind,
      (s.log.modify k fun x => (x.fst, kind)) = l₁ ++ (chunk, kind) :: l₂ := by
  have hk : s.log[k]? = some (chunk, .waiting) := by
    rw [log, List.getElem?_map, h]
    rfl
  have ⟨hl, hx⟩ := List.getElem?_eq_some_iff.mp hk
  refine ⟨s.log.take k, s.log.drop (k + 1), ?_, rfl, fun kind => ?_⟩
  · rw [← hx, List.getElem_cons_drop, List.take_append_drop]
  · rw [List.modify_eq_take_cons_drop hl, hx]

end Calls

section Step

variable {cs : List Bytes} {posted : List (Envelope V)}

-- What a step of a stream adds to the chunks `cs` that have been posted.
structure Advances (s : StreamOutbound) (cs : List Bytes) (credited : Nat) (t : StreamOutbound)
    (posted : List (Envelope V)) (new : List Bytes) : Prop where
  streamId : t.streamId = s.streamId
  credit   : t.credit = s.credit + credited
  chunks   : chunksOf s.streamId posted = new.zipIdx cs.length
  past     : s.listed = false → t.listed = false ∧ new = []
  sending  : t.Sending (cs ++ new)

theorem Advances.silent (hs : t.Sending cs) (hi : t.streamId = s.streamId)
    (hc : t.credit = s.credit) (hl : s.listed = false → t.listed = false)
    (hp : ∀ i, chunksOf i posted = []) : s.Advances cs 0 t posted [] := by
  constructor
  case streamId => exact hi
  case credit   => exact hc
  case chunks   => exact hp _
  case past     => exact fun h => ⟨hl h, rfl⟩
  case sending  => rwa [List.append_nil]

theorem Enqueued.chunks (h : s.Enqueued k chunk t posted) : chunksOf s.streamId posted =
    ((s.queue ++ [chunk]).takeWhile (fits s.credit)).zipIdx s.seq := by
  rw [h.posted, chunksOf_append, chunksOf_chunkEnvelopes]
  split <;> simp [chunksOf]

theorem Sending.enqueue (hs : s.Sending cs) (h : s.Enqueued k chunk t posted)
    (hw : t.written = s.written ++ [chunk]) (ho : inOrder t.log)
    (hc : Covered s.credit (s.written ++ [chunk])) (hl : s.listed) :
    s.Advances cs 0 t posted <| (s.queue ++ [chunk]).takeWhile (fits s.credit) := by
  constructor
  case streamId => exact h.streamId
  case credit   => exact h.credit
  case chunks   => rw [h.chunks, hs.seq]
  case past     => exact fun hn => by simp [hn] at hl
  case sending  => exact hs.of_enqueued h hw ho hc hl

theorem Sending.not_errored (hs : s.Sending cs) (hl : s.listed) : s.errored = false := by
  cases he : s.errored
  case false => rfl
  case true  => simp [hs.stopped (.inl he)] at hl

-- Only the calls of `write` matter for the log.
theorem Enqueued.of_called {calls : List WriteCall}
    (h : ({ s with writes := calls } : StreamOutbound).Enqueued k chunk t posted) :
    s.Enqueued k chunk t posted :=
  ⟨h.streamId, h.limit, h.credit, h.queue, h.queuedBytes, h.seq, h.ended, h.errored, h.listed,
    h.posted⟩

theorem Sending.listed (hs : s.Sending cs) (h : (s.ended || s.errored) = false) : s.listed := by
  cases hl : s.listed
  case true  => rfl
  case false =>
    have := hs.closed hl
    simp_all

theorem Sending.write (hs : s.Sending cs) (h : s.write limits chunk = (t, posted))
    (ho : Orderly (V := V) limits s <| .write chunk) : ∃ new, s.Advances cs 0 t posted new := by
  have hcalled {p} (hp : p.kind ≠ .enqueued) : s.Advances (V := V) cs 0
      { s with writes := s.writes ++ [⟨chunk, p⟩] } [] [] :=
    .silent (hs.called hp) rfl rfl id fun _ => rfl
  unfold StreamOutbound.write at h
  dsimp only at h
  split at h
  case isTrue =>
    cases h
    exact ⟨[], hcalled nofun⟩
  case isFalse hn =>
    split at h
    case isTrue =>
      cases h
      exact ⟨[], hcalled nofun⟩
    case isFalse hf =>
      split at h
      case isTrue =>
        cases h
        exact ⟨[], hcalled nofun⟩
      case isFalse hb =>
        have hn : (s.ended || s.errored) = false := by simpa using hn
        have hl := hs.listed hn
        have ⟨hw, hc⟩ := ho <| by
          simp only [admits, hn, Bool.not_false, Bool.true_and, Bool.and_eq_true, decide_eq_true_eq]
          omega
        have hlog : t.log = s.log ++ [(chunk, .enqueued)] := by
          rw [enqueue_log h <| hs.not_errored hl, log_called]
          have hk : s.writes.length = s.log.length := by simp [log]
          rw [hk, List.modify_eq_take_cons_drop (by simp)]
          simp [WritePhase.kind]
        have hwritten : t.written = s.written ++ [chunk] := by
          simp [StreamOutbound.written, hlog]
        have horder : inOrder t.log := hlog ▸ inOrder_append hs.order fun _ => hw
        exact ⟨_, hs.enqueue (enqueue_spec h).of_called hwritten horder hc hl⟩

theorem Sending.resume (hs : s.Sending cs) (h : s.resume k = (t, posted))
    (ho : Orderly (V := V) limits s <| .resume k) : ∃ new, s.Advances cs 0 t posted new := by
  unfold StreamOutbound.resume at h
  split at h
  case h_1 chunk hk =>
    have ⟨hl, hw, hc⟩ := ho chunk hk
    have ⟨l₁, l₂, hlog, htake, hmod⟩ := log_split hk
    have hlog' : t.log = l₁ ++ (chunk, .enqueued) :: l₂ := by
      rw [enqueue_log h <| hs.not_errored hl, hmod]
    have horder := hlog ▸ hs.order
    have hrest := enqueued_of_inOrder horder
    have hwritten : t.written = s.written ++ [chunk] := by
      simp [StreamOutbound.written, hlog, hlog', hrest]
    exact ⟨_, hs.enqueue (enqueue_spec h) hwritten (hlog' ▸ inOrder_enqueue horder (htake ▸ hw)) hc hl⟩
  case h_2 chunk hk =>
    cases h
    have hlog : (s.setPhase k .done).log = s.log := by
      have hk : s.log[k]? = some (chunk, .enqueued) := by
        rw [log, List.getElem?_map, hk]
        rfl
      rw [log_setPhase]
      refine List.ext_getElem? fun i => ?_
      rw [List.getElem?_modify]
      split
      case isTrue hi => simp [← hi, hk, WritePhase.kind]
      case isFalse   => simp
    refine ⟨[], .silent (hs.of_log rfl ?_ (hlog ▸ hs.order)) rfl rfl id fun _ => rfl⟩
    rw [StreamOutbound.written, StreamOutbound.written, hlog]
  case h_3 =>
    cases h
    exact ⟨[], .silent hs rfl rfl id fun _ => rfl⟩

theorem Sending.close (hs : s.Sending cs) (h : s.close = (t, posted)) :
    ∃ new, s.Advances cs 0 t posted new := by
  unfold StreamOutbound.close at h
  split at h
  case isTrue =>
    cases h
    exact ⟨[], .silent hs rfl rfl id fun _ => rfl⟩
  case isFalse hn =>
    have hn : (s.ended || s.errored) = false := by simpa using hn
    have ht {u : StreamOutbound} (hu : u = { s with ended := true, listed := !s.queue.isEmpty }) :
        u.Sending cs := by
      rw [hu]
      refine ⟨hs.seq, hs.written, hs.covered, hs.fit, hs.order, fun _ => .inl rfl, ?_⟩
      rintro (he | ⟨_, hq⟩)
      · simp_all
      · simp_all
    split at h
    case isTrue hq =>
      cases h
      exact ⟨[], .silent (ht <| by simp [hq]) rfl rfl (fun _ => rfl) fun _ => rfl⟩
    case isFalse hq =>
      cases h
      refine ⟨[], .silent (ht <| by simp [hq, hs.listed hn]) rfl rfl id fun _ => rfl⟩

theorem Sending.fail {error : PluginErrorWire V} (hs : s.Sending cs)
    (h : s.fail error = (t, posted)) : ∃ new, s.Advances cs 0 t posted new := by
  unfold StreamOutbound.fail at h
  split at h
  case isTrue =>
    cases h
    exact ⟨[], .silent hs rfl rfl id fun _ => rfl⟩
  case isFalse =>
    cases h
    refine ⟨[], .silent ?_ rfl rfl (fun _ => rfl) fun _ => rfl⟩
    exact ⟨hs.seq, hs.written, hs.covered, hs.fit, hs.order, fun _ => .inr rfl, fun _ => rfl⟩

theorem Sending.onCredit (hs : s.Sending cs) (h : s.onCredit n = (t, posted))
    (hc : Covered (s.credit + n) s.written) (hl : s.listed) :
    ∃ new, s.Advances cs n t posted new := by
  have hp := pumpOutbound_spec h
  refine ⟨s.queue.takeWhile (fits <| s.credit + n), ?_⟩
  constructor
  case streamId => exact hp.streamId
  case credit   => exact hp.credit
  case chunks   => exact hs.seq ▸ hp.chunks
  case past     => exact fun hn => by simp [hn] at hl
  case sending  => exact hs.of_credit hp hc hl

end Step
end StreamOutbound
end PluginSdk
