import Mathlib
import NeoTavern.PluginSdk.Credit

namespace PluginSdk

def OutboundEvent.credited {V : Type} : OutboundEvent V → Nat
  | credit bytes => bytes
  | _            => 0

namespace StreamOutbound

variable {V : Type} {limits : StreamLimitsConfig} {s t : StreamOutbound}

-- The chunks of all calls of `write`.
def chunks (s : StreamOutbound) : List Bytes :=
  s.writes.map (·.chunk)

section Chunks

@[simp]
theorem chunks_wake : s.wake.chunks = s.chunks := by
  simp [wake, chunks, Function.comp_def]

@[simp]
theorem chunks_setPhase {p : WritePhase} : (s.setPhase k p).chunks = s.chunks := by
  apply List.ext_getElem?
  intro i
  simp only [chunks, setPhase, List.getElem?_map, List.getElem?_modify]
  cases s.writes[i]? <;> simp
  split <;> rfl

theorem chunks_eq_log : s.chunks = s.log.map (·.fst) := by
  simp [chunks, log, Function.comp_def]

theorem written_sublist : s.written.Sublist s.chunks := by
  rw [chunks_eq_log]
  exact List.filter_sublist.map _

theorem Pumped.chunks_eq {posted : List (Envelope V)} (h : s.Pumped t posted) :
    t.chunks = s.chunks := by
  rw [chunks_eq_log, chunks_eq_log, h.log]

theorem enqueue_chunks {posted : List (Envelope V)} (h : s.enqueue k chunk = (t, posted)) :
    t.chunks = s.chunks := by
  unfold enqueue at h
  generalize hp : pumpOutbound (V := V) { s.setPhase k .done with
    queue       := s.queue ++ [chunk]
    queuedBytes := s.queuedBytes + chunk.length } = r at h
  obtain ⟨u, p⟩ := r
  have hu : u.chunks = s.chunks := (pumpOutbound_spec hp).chunks_eq.trans chunks_setPhase
  dsimp only at h
  split at h
  all_goals
    cases h
    simp [hu]

-- What every step of a stream keeps, whether the stream is still in use or not.
structure Kept (s : StreamOutbound) (credited : Nat) (t : StreamOutbound) : Prop where
  streamId : t.streamId = s.streamId
  credit   : t.credit = s.credit + credited
  listed   : s.listed = false → t.listed = false
  chunks   : s.chunks.IsPrefix t.chunks

theorem Kept.called {p : WritePhase} :
    s.Kept 0 { s with writes := s.writes ++ [⟨chunk, p⟩] } :=
  ⟨rfl, rfl, id, [chunk], by simp [StreamOutbound.chunks]⟩

theorem Kept.enqueued {posted : List (Envelope V)} (h : s.enqueue k chunk = (t, posted)) :
    s.Kept 0 t := by
  have hs := enqueue_spec h
  exact ⟨hs.streamId, hs.credit, fun hl => by simp [hs.listed, hl], [], by simp [enqueue_chunks h]⟩

theorem Kept.trans {u : StreamOutbound} (h₁ : s.Kept m t) (h₂ : t.Kept n u) : s.Kept (m + n) u := by
  refine ⟨h₂.streamId.trans h₁.streamId, ?_, h₂.listed ∘ h₁.listed, h₁.chunks.trans h₂.chunks⟩
  rw [h₂.credit, h₁.credit, Nat.add_assoc]

theorem step_kept {ev : OutboundEvent V} {posted : List (Envelope V)}
    (h : ev.step limits s = (t, posted)) : s.Kept ev.credited t := by
  have same {u : StreamOutbound} (hi : u.streamId = s.streamId) (hc : u.credit = s.credit)
      (hl : s.listed = false → u.listed = false) (hw : u.chunks = s.chunks) : s.Kept 0 u :=
    ⟨hi, hc, hl, [], by rw [hw, List.append_nil]⟩
  cases ev
  case write chunk =>
    simp only [OutboundEvent.step, write] at h
    split at h
    case isTrue => cases h; exact .called
    case isFalse =>
      split at h
      case isTrue => cases h; exact .called
      case isFalse =>
        split at h
        case isTrue => cases h; exact .called
        case isFalse => exact Kept.called.trans <| .enqueued h
  case resume k =>
    simp only [OutboundEvent.step, resume] at h
    split at h
    case h_1 => exact .enqueued h
    case h_2 => cases h; exact same rfl rfl id chunks_setPhase
    case h_3 => cases h; exact same rfl rfl id rfl
  case close =>
    simp only [OutboundEvent.step, close] at h
    split at h
    case isTrue => cases h; exact same rfl rfl id rfl
    case isFalse =>
      split at h
      case isTrue  => cases h; exact same rfl rfl (fun _ => rfl) rfl
      case isFalse => cases h; exact same rfl rfl id rfl
  case fail =>
    simp only [OutboundEvent.step, fail] at h
    split at h
    case isTrue  => cases h; exact same rfl rfl id rfl
    case isFalse => cases h; exact same rfl rfl (fun _ => rfl) rfl
  case credit n =>
    have hp := pumpOutbound_spec h
    refine ⟨hp.streamId, hp.credit, fun hl => ?_, [], ?_⟩
    · rw [hp.listed, hl]
      rfl
    · rw [hp.chunks_eq, List.append_nil]
      rfl

end Chunks

-- A step of a stream that is used orderly.
theorem Sending.step {ev : OutboundEvent V} {posted : List (Envelope V)} (hs : s.Sending cs)
    (h : ev.step limits s = (t, posted)) (ho : s.Orderly limits ev)
    (hl : ∀ n, ev = .credit n → s.listed) : ∃ new, s.Advances cs ev.credited t posted new := by
  cases ev
  case write  => exact hs.write h ho
  case resume => exact hs.resume h ho
  case close  => exact hs.close h
  case fail   => exact hs.fail h
  case credit => exact hs.onCredit h ho (hl _ rfl)

end StreamOutbound

namespace KernelSession

open StreamOutbound

variable {V : Type} [StructuredClone V] {s t : KernelSession V} {g : String → Nat}

-- A session before anything has happened.
def create (role instanceId : String) (limits : StreamLimitsConfig) (handlers : List String) :
    KernelSession V :=
  { role, instanceId, limits, handlers }

section Runs

-- The bytes of credit that an event brings to a stream.
def credited (s : KernelSession V) (e : Event V) (streamId : String) : Nat :=
  match s.outboundStep e with
  | some (stream, ev) =>
    if (s.outbound[stream]?).any (·.streamId = streamId) then ev.credited else 0
  | none => 0

-- The bytes of the credit that a run has processed for a stream.
def granted (s : KernelSession V) : List (Event V) → String → Nat
  | [],      _        => 0
  | e :: es, streamId => s.credited e streamId + (s.step e).granted es streamId

-- All streams of a session that is not closed are used orderly, and the peer cancels none.
def Orderly (s : KernelSession V) (e : Event V) : Prop :=
  s.disposed = false →
    (∀ stream ev o, s.outboundStep e = some (stream, ev) → s.outbound[stream]? = some o →
      o.Orderly s.limits ev) ∧
    ∀ streamId now, e = .receive (.streamCancel streamId) now → s.outboundOf streamId = none

def OrderlyRun (s : KernelSession V) : List (Event V) → Prop
  | []      => True
  | e :: es => s.Orderly e ∧ (s.step e).OrderlyRun es

@[simp]
theorem run_append {es fs : List (Event V)} : s.run (es ++ fs) = (s.run es).run fs :=
  List.foldl_append ..

theorem OrderlyRun.append {es fs : List (Event V)} (h : s.OrderlyRun (es ++ fs)) :
    s.OrderlyRun es ∧ (s.run es).OrderlyRun fs := by
  induction es generalizing s
  case nil => exact ⟨trivial, h⟩
  case cons e es ih =>
    have ⟨he, h⟩ := h
    have ⟨h₁, h₂⟩ := ih h
    exact ⟨⟨he, h₁⟩, h₂⟩

end Runs

-- What has been posted of a stream that was granted that many bytes.
structure Sent (s : KernelSession V) (o : StreamOutbound) (granted : Nat) (cs : List Bytes) :
    Prop where
  chunks  : chunksOf o.streamId s.port = cs.zipIdx
  credit  : o.credit = granted
  covered : bytes cs ≤ o.credit
  order   : cs.Sublist o.chunks
  closed  : s.disposed → o.listed = false
  sending : s.disposed = false → o.Sending cs

-- The invariant of all runs that are orderly.
structure Metered (s : KernelSession V) (g : String → Nat) : Prop extends s.Named where
  unopened : ∀ i ∉ s.streamIds, g i = 0
  sent     : ∀ o ∈ s.outbound, ∃ cs, s.Sent o (g o.streamId) cs

-- What a step leaves of a stream that is no longer in use.
def Follows (s t : KernelSession V) : Prop :=
  ∀ (k : Nat) o, s.outbound[k]? = some o → ∃ o', t.outbound[k]? = some o' ∧
    o'.streamId = o.streamId ∧ (o.listed = false →
      o'.listed = false ∧ chunksOf o.streamId t.port = chunksOf o.streamId s.port)

section Steps

omit [StructuredClone V] in
theorem Sent.keeps {o : StreamOutbound} {n : Nat} (h : s.Sent o n cs) (hd : t.disposed = s.disposed)
    (hc : ofStream o.streamId t.port = ofStream o.streamId s.port) : t.Sent o n cs := by
  refine ⟨?_, h.credit, h.covered, h.order, fun hn => h.closed <| hd ▸ hn,
    fun hn => h.sending <| hd ▸ hn⟩
  rw [← chunksOf_ofStream, hc, chunksOf_ofStream, h.chunks]

theorem chunksOf_clones {p : List (Envelope V)} : chunksOf i (p.filter (·.clones)) = chunksOf i p := by
  induction p
  case nil => rfl
  case cons e p ih =>
    cases h : e.clones
    case true  =>
      rw [List.filter_cons_of_pos h]
      simp only [chunksOf, List.filterMap_cons] at ih ⊢
      rw [ih]
    case false =>
      rw [List.filter_cons_of_neg (by simp [h]), ih]
      cases e
      case streamChunk => cases h
      all_goals rfl

theorem Moved.chunks {posted : List (Envelope V)} (h : s.Moved stream o o' posted t) :
    chunksOf o.streamId t.port =
      chunksOf o.streamId s.port ++ if s.disposed then [] else chunksOf o.streamId posted := by
  rw [h.port]
  split
  case isTrue  => rw [List.append_nil]
  case isFalse => rw [chunksOf_append, chunksOf_clones]

omit [StructuredClone V] in
theorem getElem?_outboundOf (h : s.outboundOf i = some stream)
    (ho : s.outbound[stream]? = some o) : o.streamId = i ∧ o.listed := by
  have ⟨hk, hp, _⟩ := List.findIdx?_eq_some_iff_getElem.mp h
  rw [List.getElem?_eq_getElem hk] at ho
  cases ho
  simpa using hp

omit [StructuredClone V] in
theorem not_listed_of_outboundOf (h : s.outboundOf o.streamId = none) (ho : o ∈ s.outbound) :
    o.listed = false := by
  have := List.findIdx?_eq_none_iff.mp h o ho
  simpa using this

omit [StructuredClone V] in
-- Only a stream in the map of the session gets credit.
theorem listed_of_credit (h : s.outboundStep e = some (stream, .credit n))
    (ho : s.outbound[stream]? = some o) : s.disposed = false ∧ o.listed := by
  cases e
  case receive envelope now =>
    simp only [outboundStep] at h
    split at h
    case isTrue  => cases h
    case isFalse hd =>
      split at h
      case h_2 => cases h
      case h_1 =>
        obtain ⟨i, hi, he⟩ := Option.map_eq_some_iff.mp h
        cases he
        exact ⟨by simpa using hd, (getElem?_outboundOf hi ho).right⟩
  all_goals
    simp [outboundStep] at h

-- The step of a stream that is used orderly.
theorem Metered.sent_moved (h : s.Metered g) (hs : s.Orderly e)
    (he : s.outboundStep e = some (stream, ev)) (hf : ev.step s.limits o = (o', posted))
    (hm : s.Moved stream o o' posted t) : ∃ cs, t.Sent o' (g o.streamId + ev.credited) cs ∧
      (o.listed = false → chunksOf o.streamId t.port = chunksOf o.streamId s.port) := by
  have ⟨cs, hcs⟩ := h.sent o <| List.mem_of_getElem? hm.get
  have hkept := step_kept hf
  have hown := hm.chunks
  cases hd : s.disposed
  case true =>
    simp only [hd, if_true, List.append_nil] at hown
    refine ⟨cs, ?_, fun _ => hown⟩
    constructor
    case chunks  => rw [hkept.streamId, hown, hcs.chunks]
    case credit  => rw [hkept.credit, hcs.credit]
    case covered => exact hkept.credit ▸ Nat.le_add_right_of_le hcs.covered
    case order   => exact hcs.order.trans hkept.chunks.sublist
    case closed  => exact fun _ => hkept.listed <| hcs.closed hd
    case sending => simp [hm.disposed, hd]
  case false =>
    have hl : ∀ n, ev = .credit n → o.listed := by
      intro n hn
      exact (listed_of_credit (hn ▸ he) hm.get).right
    have ⟨new, hnew⟩ := (hcs.sending hd).step hf ((hs hd).left _ _ _ he hm.get) hl
    simp only [hd, hnew.chunks] at hown
    refine ⟨cs ++ new, ?_, fun hl => ?_⟩
    · constructor
      case chunks  =>
        rw [hkept.streamId, hown, hcs.chunks, List.zipIdx_append]
        simp
      case credit  => rw [hkept.credit, hcs.credit]
      case covered => exact hnew.sending.covered
      case order   =>
        have : (cs ++ new).Sublist o'.written := hnew.sending.written ▸ List.sublist_append_left ..
        exact this.trans written_sublist
      case closed  => simp [hm.disposed, hd]
      case sending => exact fun _ => hnew.sending
    · simp [hown, (hnew.past hl).right]

theorem Metered.moved (h : s.Metered g) (hs : s.Orderly e)
    (he : s.outboundStep e = some (stream, ev)) (hf : ev.step s.limits o = (o', posted))
    (hm : s.Moved stream o o' posted t) (hn : t.Named) :
    (t.Metered fun i => g i + s.credited e i) ∧ s.Follows t := by
  have ⟨cs, hcs, hover⟩ := h.sent_moved hs he hf hm
  have hcred (i) : s.credited e i = if o.streamId = i then ev.credited else 0 := by
    simp [credited, he, hm.get]
  constructor
  case left =>
    refine ⟨hn, fun i hi => ?_, fun p hp => ?_⟩
    · rw [hm.streamIds] at hi
      have hne : o.streamId ≠ i := by
        rintro rfl
        exact hi <| mem_streamIds hm.get
      rw [h.unopened i hi, hcred, if_neg hne]
    · have ⟨k, hk⟩ := List.mem_iff_getElem?.mp hp
      by_cases hks : stream = k
      case pos =>
        rw [← hks, hm.get_self] at hk
        cases hk
        rw [hcred, hm.own.streamId, if_pos rfl]
        exact ⟨cs, hcs⟩
      case neg =>
        rw [hm.get_of_ne hks] at hk
        have hne := h.ne_of_ne hm.get hk hks
        have ⟨ds, hds⟩ := h.sent p <| List.mem_of_getElem? hk
        rw [hcred, if_neg hne]
        exact ⟨ds, hds.keeps hm.disposed <| hm.ofStream_other hne⟩
  case right =>
    intro k p hk
    by_cases hks : stream = k
    case pos =>
      rw [← hks, hm.get] at hk
      cases hk
      exact ⟨o', hks ▸ hm.get_self, hm.own.streamId, fun hl => ⟨(step_kept hf).listed hl, hover hl⟩⟩
    case neg =>
      have hne := h.ne_of_ne hm.get hk hks
      refine ⟨p, hm.get_of_ne hks ▸ hk, rfl, fun hl => ⟨hl, ?_⟩⟩
      rw [← chunksOf_ofStream, hm.ofStream_other hne, chunksOf_ofStream]

theorem Metered.opened (h : s.Metered g) (ho : s.Opened metaValue t) (hn : t.Named) :
    t.Metered g ∧ s.Follows t := by
  have hfresh := h.fresh_nextId
  have hne {o} (hm : o ∈ s.outbound) : s.nextId "str" ≠ o.streamId := by
    intro he
    exact hfresh <| he ▸ List.mem_map_of_mem hm
  constructor
  case left =>
    refine ⟨hn, fun i hi => ?_, fun o hm => ?_⟩
    · rw [ho.streamIds, List.mem_append, not_or] at hi
      exact h.unopened i hi.left
    · rw [ho.outbound] at hm
      rcases List.mem_append.mp hm with hm | hm
      · have ⟨cs, hcs⟩ := h.sent o hm
        exact ⟨cs, hcs.keeps (ho.disposed.right.trans ho.disposed.left.symm) <|
          ho.ofStream_other <| hne hm⟩
      · obtain rfl := List.mem_singleton.mp hm
        refine ⟨[], ?_⟩
        constructor
        case chunks  =>
          rw [← chunksOf_ofStream, ho.ofStream_own h.toNamed, chunksOf_clones]
          rfl
        case credit  => exact (h.unopened _ hfresh).symm
        case covered => exact Nat.zero_le _
        case order   => exact List.nil_sublist _
        case closed  => simp [ho.disposed.right]
        case sending =>
          exact fun _ => ⟨rfl, rfl, Nat.zero_le _, nofun, List.Pairwise.nil, nofun, by simp⟩
  case right =>
    intro k o hk
    refine ⟨o, ?_, rfl, fun hl => ⟨hl, ?_⟩⟩
    · rw [ho.outbound, List.getElem?_append_left (List.getElem?_eq_some_iff.mp hk).fst]
      exact hk
    · rw [← chunksOf_ofStream, ho.ofStream_other <| hne <| List.mem_of_getElem? hk,
        chunksOf_ofStream]

theorem dispose_kept {o : StreamOutbound} : o.Kept 0 o.dispose ∧ o.dispose.listed = false := by
  rw [StreamOutbound.dispose]
  split
  case isTrue hl =>
    exact ⟨⟨rfl, rfl, fun _ => rfl, [], (List.append_nil _).trans chunks_wake.symm⟩, rfl⟩
  case isFalse hl =>
    exact ⟨⟨rfl, rfl, id, [], List.append_nil _⟩, by simpa using hl⟩

omit [StructuredClone V] in
theorem Metered.disposed (h : s.Metered g) (hd : s.Disposed t) (hn : t.Named) :
    t.Metered g ∧ s.Follows t := by
  constructor
  case left =>
    refine ⟨hn, fun i hi => h.unopened i <| hd.streamIds ▸ hi, fun o hm => ?_⟩
    rw [hd.outbound] at hm
    have ⟨p, hm, hpo⟩ := List.mem_map.mp hm
    have ⟨hkept, hl⟩ := hpo ▸ dispose_kept (o := p)
    have ⟨cs, hcs⟩ := h.sent p hm
    refine ⟨cs, ?_⟩
    constructor
    case chunks  => rw [hkept.streamId, hd.port, hcs.chunks]
    case credit  => rw [hkept.streamId, hkept.credit, hcs.credit, Nat.add_zero]
    case covered => exact hkept.credit ▸ hcs.covered
    case order   => exact hcs.order.trans hkept.chunks.sublist
    case closed  => exact fun _ => hl
    case sending => simp [hd.disposed.right]
  case right =>
    intro k o hk
    have ⟨hkept, hl⟩ := dispose_kept (o := o)
    refine ⟨o.dispose, ?_, hkept.streamId, fun _ => ⟨hl, by rw [hd.port]⟩⟩
    rw [hd.outbound, List.getElem?_map, hk]
    rfl

-- The step lemma of the invariant.
theorem Metered.step {e : Event V} (h : s.Metered g) (hs : s.Orderly e) :
    ((s.step e).Metered fun i => g i + s.credited e i) ∧ s.Follows (s.step e) := by
  have ht : s.Turn e (s.step e) := turn
  have hn := h.toNamed.turn ht
  generalize s.step e = t at *
  have hstill (hc : ∀ i, s.credited e i = 0) (h : t.Metered g ∧ s.Follows t) :
      (t.Metered fun i => g i + s.credited e i) ∧ s.Follows t := by
    simpa only [hc, Nat.add_zero] using h
  cases ht
  case quiet he hq =>
    have hc i : s.credited e i = 0 := by
      rw [credited]
      split
      case h_1 p hp => simp [he _ hp]
      case h_2      => rfl
    refine hstill hc ⟨⟨hn, fun i hi => ?_, fun o ho => ?_⟩, fun k o hk => ?_⟩
    · refine h.unopened i ?_
      rwa [streamIds, hq.outbound] at hi
    · obtain ⟨cs, hcs⟩ := h.sent o (hq.outbound ▸ ho)
      exact ⟨cs, hcs.keeps hq.disposed hq.ofStream⟩
    · refine ⟨o, hq.outbound ▸ hk, rfl, fun hl => ⟨hl, ?_⟩⟩
      rw [← chunksOf_ofStream, hq.ofStream, chunksOf_ofStream]
  case moved stream ev o o' posted hf he hm => exact h.moved hs he hf hm hn
  case opened metaValue ho                  => exact hstill (fun _ => rfl) <| h.opened ho hn
  case disposed hd                          => exact hstill (fun _ => rfl) <| h.disposed hd hn

omit [StructuredClone V] in
theorem Follows.trans {u : KernelSession V} (h₁ : s.Follows t) (h₂ : t.Follows u) :
    s.Follows u := by
  intro k o hk
  have ⟨p, hp, hpi, hpl⟩ := h₁ k o hk
  have ⟨q, hq, hqi, hql⟩ := h₂ k p hp
  refine ⟨q, hq, hqi.trans hpi, fun hl => ?_⟩
  have ⟨hl, hc⟩ := hpl hl
  have ⟨hl, hd⟩ := hql hl
  exact ⟨hl, by rw [← hc, ← hpi, hd]⟩

-- The run lemma.
theorem Metered.run {es : List (Event V)} (h : s.Metered g) (hs : s.OrderlyRun es) :
    (s.run es).Metered (fun i => g i + s.granted es i) ∧ s.Follows (s.run es) := by
  induction es generalizing s g
  case nil => exact ⟨h, fun k o hk => ⟨o, hk, rfl, fun hl => ⟨hl, rfl⟩⟩⟩
  case cons e es ih =>
    have ⟨he, hs⟩ := hs
    have ⟨h, hf⟩ := h.step he
    have ⟨h, hfs⟩ := ih h hs
    simp only [Nat.add_assoc] at h
    exact ⟨h, hf.trans hfs⟩

omit [StructuredClone V] in
theorem create_metered {role instanceId : String} {limits : StreamLimitsConfig}
    {handlers : List String} :
    (create role instanceId limits handlers : KernelSession V).Metered fun _ => 0 := by
  exact ⟨⟨nofun, List.nodup_nil, fun _ _ => rfl⟩, fun _ _ => rfl, nofun⟩

end Steps

section Main

-- The peer has cancelled a stream that was open then.
def Cancelled (s : KernelSession V) (es : List (Event V)) (streamId : String) : Prop :=
  ∃ pre now post, es = pre ++ .receive (.streamCancel streamId) now :: post ∧
    streamId ∈ (s.run pre).streamIds

-- The end, the failure or the cancellation of a stream has taken effect.
def Over (s : KernelSession V) (es : List (Event V)) (o : StreamOutbound) : Prop :=
  o.ended ∧ o.queue = [] ∨ o.errored ∨ s.Cancelled es o.streamId

-- What the producer of a stream may post in a run `es` that goes on with `fs`.
structure KeepsWindow (s : KernelSession V) (es fs : List (Event V)) (o : StreamOutbound) :
    Prop where
  granted : bytes ((chunksOf o.streamId (s.run es).port).map (·.fst)) ≤ s.granted es o.streamId
  order   : ∃ cs : List Bytes, chunksOf o.streamId (s.run es).port = cs.zipIdx ∧
    cs.Sublist o.chunks
  past    : s.Over es o → chunksOf o.streamId (s.run (es ++ fs)).port =
    chunksOf o.streamId (s.run es).port

theorem OrderlyRun.not_listed {es : List (Event V)} (h : s.OrderlyRun es) (hm : s.Metered g)
    (ho : o ∈ (s.run es).outbound) (hc : s.Cancelled es o.streamId) : o.listed = false := by
  obtain ⟨pre, now, post, rfl, hi⟩ := hc
  have ⟨hend, _⟩ := hm.run h
  have ⟨hpre, hs, hpost⟩ := h.append
  have ⟨hm, _⟩ := hm.run hpre
  have ⟨hm', hf⟩ := hm.step hs
  have ⟨_, hfpost⟩ := hm'.run hpost
  have ⟨q, hq, hqi⟩ := List.mem_map.mp hi
  have hl : q.listed = false := by
    cases hd : (s.run pre).disposed
    case true  =>
      have ⟨_, hcs⟩ := hm.sent q hq
      exact hcs.closed hd
    case false =>
      refine not_listed_of_outboundOf ?_ hq
      rw [hqi]
      exact (hs hd).right _ _ rfl
  have ⟨k, hk⟩ := List.mem_iff_getElem?.mp hq
  have ⟨p, hp, hpi, hpl⟩ := hf.trans hfpost k q hk
  have hp : (s.run (pre ++ .receive (.streamCancel o.streamId) now :: post)).outbound[k]? = some p := by
    rw [run_append]
    exact hp
  have ⟨j, hj⟩ := List.mem_iff_getElem?.mp ho
  by_cases hjk : j = k
  case pos =>
    rw [hjk, hp] at hj
    cases hj
    exact (hpl hl).left
  case neg => exact absurd (hqi.symm.trans hpi.symm) <| hend.ne_of_ne hj hp hjk

theorem sends_no_more_than_granted {role instanceId : String} {limits : StreamLimitsConfig}
    {handlers : List String} {es fs : List (Event V)}
    (h : (create role instanceId limits handlers : KernelSession V).OrderlyRun (es ++ fs))
    (ho : o ∈ ((create role instanceId limits handlers : KernelSession V).run es).outbound) :
    (create role instanceId limits handlers).KeepsWindow es fs o := by
  have ⟨hes, hfs⟩ := h.append
  have ⟨hm, _⟩ := create_metered.run hes
  obtain ⟨cs, hcs⟩ := hm.sent o ho
  constructor
  case granted =>
    have hcredit := hcs.credit
    rw [Nat.zero_add] at hcredit
    rw [hcs.chunks, ← hcredit]
    simpa using hcs.covered
  case order => exact ⟨cs, hcs.chunks, hcs.order⟩
  case past  =>
    intro hover
    have hl : o.listed = false := by
      cases hd : KernelSession.disposed _
      case true  => exact hcs.closed hd
      case false =>
        rcases hover with hover | hover | hover
        · exact (hcs.sending hd).stopped <| .inr hover
        · exact (hcs.sending hd).stopped <| .inl hover
        · exact hes.not_listed create_metered ho hover
    have ⟨_, hf⟩ := hm.run hfs
    have ⟨k, hk⟩ := List.mem_iff_getElem?.mp ho
    obtain ⟨_, _, _, hn⟩ := hf k o hk
    rw [run_append]
    exact (hn hl).right

end Main

end KernelSession

namespace Sample

open KernelSession

-- A session with a window of four bytes.
def session : KernelSession Value :=
  create "plugin" "p1" { maxInFlightBytes := 4, maxBufferedBytesPerStream := 8, maxTotalBytes := 99 } []

def openStream : Event Value :=
  .openOutboundStream <| .data 0

def grant (bytes : Nat) : Event Value :=
  .receive (.streamCredit "plugin:str:1" bytes) 0

def chunk : Bytes :=
  [1, 2, 3, 4]

-- The stream after one write, for which it had credit.
def written : StreamOutbound where
  streamId         := "plugin:str:1"
  credit           := 8
  queuedBytes      := 4
  seq              := 1
  maxBufferedBytes := 8
  writes           := [⟨chunk, .done⟩]

-- The stream after two writes, with credit for one of them.
def writtenTwice : StreamOutbound where
  streamId         := "plugin:str:1"
  credit           := 4
  queuedBytes      := 8
  seq              := 2
  maxBufferedBytes := 8
  writes           := [⟨chunk, .done⟩, ⟨chunk, .done⟩]

theorem written_orderly :
    session.OrderlyRun ([openStream, grant 8, .write 0 chunk] ++ [.close 0]) := by
  refine ⟨fun _ => ⟨nofun, nofun⟩, fun _ => ⟨fun stream ev o he ho => ?_, nofun⟩,
    fun _ => ⟨fun stream ev o he ho => ?_, nofun⟩, fun _ => ⟨fun stream ev o he ho => ?_, nofun⟩,
    trivial⟩
  · have hg : (session.step openStream).outboundStep (grant 8) = some (0, .credit 8) := rfl
    have hs : (session.step openStream).outbound[0]? = some ⟨"plugin:str:1", 0, [], 0, 0, false,
      false, 8, [], true⟩ := rfl
    cases hg.symm.trans he
    cases hs.symm.trans ho
    exact Nat.zero_le _
  · have hs : ((session.step openStream).step (grant 8)).outbound[0]? = some ⟨"plugin:str:1", 8, [],
      0, 0, false, false, 8, [], true⟩ := rfl
    cases he
    cases hs.symm.trans ho
    exact fun _ => ⟨nofun, by decide⟩
  · cases he
    trivial

theorem mem_written : written ∈ (session.run [openStream, grant 8, .write 0 chunk]).outbound :=
  List.mem_of_getElem? (i := 0) rfl

theorem mem_writtenTwice :
    writtenTwice ∈ (session.run [openStream, grant 4, .write 0 chunk, .write 0 chunk]).outbound :=
  List.mem_of_getElem? (i := 0) rfl

end Sample

namespace KernelSession

open Sample

theorem sends_no_more_than_granted_window :
    session.KeepsWindow [openStream, grant 8, .write 0 chunk] [.close 0] written :=
  sends_no_more_than_granted written_orderly mem_written

theorem sends_more_than_granted : ¬∀ (role instanceId : String) (limits : StreamLimitsConfig)
    (handlers : List String) (es fs : List (Event Value)) (o : StreamOutbound),
    o ∈ ((create role instanceId limits handlers : KernelSession Value).run es).outbound →
    (create role instanceId limits handlers).KeepsWindow es fs o := by
  intro h
  have hw := (h _ _ _ _ _ [] _ mem_writtenTwice).granted
  revert hw
  decide +kernel

end KernelSession
end PluginSdk
