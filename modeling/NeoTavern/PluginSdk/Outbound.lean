import Mathlib
import NeoTavern.PluginSdk.Frame

namespace PluginSdk

-- The chunks of a stream among the envelopes that were posted, with their numbers.
def chunksOf {V : Type} (streamId : String) (port : List (Envelope V)) : List (Bytes × Nat) :=
  port.filterMap fun
    | .streamChunk i seq buffer => if i = streamId then some (buffer, seq) else none
    | _                         => none

def chunkEnvelopes {V : Type} (streamId : String) (chunks : List Bytes) (seq : Nat) :
    List (Envelope V) :=
  (chunks.zipIdx seq).map fun (c, n) => .streamChunk streamId n c

def bytes (chunks : List Bytes) : Nat :=
  (chunks.map List.length).sum

-- The envelopes by which the writer of a stream makes it known to the peer.
def ofStream {V : Type} (streamId : String) (port : List (Envelope V)) : List (Envelope V) :=
  port.filter fun e => e.writes = some streamId

-- A chunk that the credit covers if nothing else has been sent.
def fits (credit : Nat) (chunk : Bytes) : Bool :=
  0 < credit && chunk.length ≤ credit

section Chunks

variable {V : Type} {p q : List (Envelope V)} {streamId i : String}

@[simp]
theorem chunksOf_append : chunksOf i (p ++ q) = chunksOf i p ++ chunksOf i q :=
  List.filterMap_append

@[simp]
theorem bytes_append (xs ys : List Bytes) : bytes (xs ++ ys) = bytes xs + bytes ys := by
  simp [bytes]

@[simp]
theorem bytes_singleton : bytes [c] = c.length := by
  simp [bytes]

@[simp]
theorem chunksOf_chunkEnvelopes : chunksOf (V := V) streamId (chunkEnvelopes streamId cs n) =
    cs.zipIdx n := by
  simp [chunksOf, chunkEnvelopes, List.filterMap_map]

theorem writes_chunkEnvelopes (h : e ∈ chunkEnvelopes (V := V) streamId cs n) :
    e.writes = some streamId := by
  have ⟨_, _, hm⟩ := List.mem_map.mp h
  rw [← hm]
  rfl

@[simp]
theorem ofStream_append : ofStream i (p ++ q) = ofStream i p ++ ofStream i q :=
  List.filter_append ..

theorem ofStream_eq_self (h : ∀ e ∈ p, e.writes = some i) : ofStream i p = p :=
  List.filter_eq_self.mpr fun e he => by simp [h e he]

theorem ofStream_eq_nil (h : ∀ e ∈ p, e.writes ≠ some i) : ofStream i p = [] :=
  List.filter_eq_nil_iff.mpr fun e he => by simp [h e he]

-- The chunks of a stream are among its envelopes.
theorem chunksOf_ofStream : chunksOf i (ofStream i p) = chunksOf i p := by
  induction p
  case nil => rfl
  case cons e p ih =>
    by_cases h : e.writes = some i
    case pos =>
      rw [ofStream, List.filter_cons_of_pos (by simp [h]), chunksOf, List.filterMap_cons,
        ← chunksOf, ← ofStream, ih]
      rw [chunksOf, chunksOf, List.filterMap_cons]
    case neg =>
      rw [ofStream, List.filter_cons_of_neg (by simp [h]), ← ofStream, ih]
      cases e
      case streamChunk j _ _ =>
        have hj : j ≠ i := fun he => h <| congrArg some he
        simp [chunksOf, hj]
      all_goals rfl

end Chunks

namespace StreamOutbound

variable {V : Type} {s t : StreamOutbound}

-- The loop posts the chunks that fit one by one.
theorem pumpLoop_eq {streamId : String} {credit : Nat} {queue : List Bytes} {seq : Nat} :
    pumpLoop (V := V) streamId credit queue seq =
      (queue.dropWhile (fits credit), seq + (queue.takeWhile (fits credit)).length,
        chunkEnvelopes streamId (queue.takeWhile (fits credit)) seq) := by
  induction queue generalizing seq
  case nil => rfl
  case cons c queue ih =>
    rw [pumpLoop]
    by_cases h : fits credit c
    case pos =>
      have hc : (decide (0 < credit) && decide (c.length ≤ credit)) = true := h
      rw [if_pos hc, ih, List.takeWhile_cons_of_pos h, List.dropWhile_cons_of_pos h]
      simp only [chunkEnvelopes, List.length_cons, List.zipIdx_cons, List.map_cons, Prod.mk.injEq,
        and_true, true_and]
      omega
    case neg =>
      have hc : ¬(decide (0 < credit) && decide (c.length ≤ credit)) = true := h
      rw [if_neg hc, List.takeWhile_cons_of_neg h, List.dropWhile_cons_of_neg h]
      simp [chunkEnvelopes]

-- What a pump does to a stream, and what it posts.
structure Pumped (s t : StreamOutbound) (posted : List (Envelope V)) : Prop where
  streamId    : t.streamId = s.streamId
  limit       : t.maxBufferedBytes = s.maxBufferedBytes
  credit      : t.credit = s.credit
  queue       : t.queue = s.queue.dropWhile (fits s.credit)
  queuedBytes : t.queuedBytes = s.queuedBytes
  seq         : t.seq = s.seq + (s.queue.takeWhile (fits s.credit)).length
  ended       : t.ended = s.ended
  errored     : t.errored = s.errored
  listed      : t.listed = (s.listed && !(s.ended && t.queue.isEmpty))
  writes      : t.writes = s.writes ∨
    2 * s.queuedBytes ≤ s.maxBufferedBytes ∧ t.writes = s.wake.writes
  posted      : posted = chunkEnvelopes s.streamId (s.queue.takeWhile (fits s.credit)) s.seq ++
    if s.ended && t.queue.isEmpty then [.streamEnd s.streamId] else []

theorem pumpOutbound_spec {posted : List (Envelope V)} (h : s.pumpOutbound = (t, posted)) :
    s.Pumped t posted := by
  unfold pumpOutbound at h
  simp only [pumpLoop_eq] at h
  split at h
  case isTrue he =>
    cases h
    constructor
    case writes => exact .inl rfl
    case posted => simp [he]
    case listed => simp [he]
    all_goals rfl
  case isFalse he =>
    split at h
    case isTrue hq =>
      cases h
      constructor
      case writes => exact .inr ⟨hq, rfl⟩
      case posted => simp [wake, he]
      case listed => simp [wake, he]
      all_goals rfl
    case isFalse =>
      cases h
      constructor
      case writes => exact .inl rfl
      case posted => simp [he]
      case listed => simp [he]
      all_goals rfl

theorem Pumped.chunks {posted : List (Envelope V)} (h : s.Pumped t posted) :
    chunksOf s.streamId posted = (s.queue.takeWhile (fits s.credit)).zipIdx s.seq := by
  rw [h.posted, chunksOf_append, chunksOf_chunkEnvelopes]
  split
  · simp [chunksOf]
  · simp [chunksOf]

theorem Pumped.writes_posted {posted : List (Envelope V)} (h : s.Pumped t posted) :
    ∀ e ∈ posted, e.writes = some s.streamId := by
  intro e he
  rw [h.posted] at he
  rcases List.mem_append.mp he with he | he
  · exact writes_chunkEnvelopes he
  · split at he
    case isTrue  => rw [List.mem_singleton.mp he]; rfl
    case isFalse => cases he

end StreamOutbound

-- What can happen to an outbound stream.
inductive OutboundEvent (V : Type)
  | write (chunk : Bytes)
  | resume (k : Nat)
  | close
  | fail (error : PluginErrorWire V)
  | credit (bytes : Nat)

def OutboundEvent.step {V : Type} (limits : StreamLimitsConfig) :
    OutboundEvent V → StreamOutbound → StreamOutbound × List (Envelope V)
  | write chunk  => (·.write limits chunk)
  | resume k     => (·.resume k)
  | close        => (·.close)
  | fail error   => (·.fail error)
  | credit bytes => (·.onCredit bytes)

namespace StreamOutbound

variable {V : Type} {s t : StreamOutbound} {posted : List (Envelope V)}

-- A stream keeps its name and its limit, and posts its own envelopes only.
structure Own (s t : StreamOutbound) (posted : List (Envelope V)) : Prop where
  streamId : t.streamId = s.streamId
  limit    : t.maxBufferedBytes = s.maxBufferedBytes
  writes   : ∀ e ∈ posted, e.writes = some s.streamId

theorem Own.silent (h : t.streamId = s.streamId) (hl : t.maxBufferedBytes = s.maxBufferedBytes) :
    s.Own (V := V) t [] :=
  ⟨h, hl, nofun⟩

theorem Own.single {e : Envelope V} (h : t.streamId = s.streamId)
    (hl : t.maxBufferedBytes = s.maxBufferedBytes) (he : e.writes = some s.streamId) : s.Own t [e] :=
  ⟨h, hl, fun x hx => by rw [List.mem_singleton.mp hx, he]⟩

theorem Pumped.own (h : s.Pumped t posted) : s.Own t posted :=
  ⟨h.streamId, h.limit, h.writes_posted⟩

theorem enqueue_own (h : s.enqueue k chunk = (t, posted)) : s.Own t posted := by
  unfold enqueue at h
  generalize hp : pumpOutbound (V := V) { s.setPhase k .done with
    queue       := s.queue ++ [chunk]
    queuedBytes := s.queuedBytes + chunk.length } = r at h
  obtain ⟨u, p⟩ := r
  have hp := (pumpOutbound_spec hp).own
  dsimp only at h
  split at h
  all_goals
    cases h
    exact ⟨hp.streamId, hp.limit, hp.writes⟩

theorem step_own {limits : StreamLimitsConfig} {ev : OutboundEvent V}
    (h : ev.step limits s = (t, posted)) : s.Own t posted := by
  cases ev
  case write chunk =>
    simp only [OutboundEvent.step, write] at h
    split at h
    case isTrue => cases h; exact .silent rfl rfl
    case isFalse =>
      split at h
      case isTrue => cases h; exact .silent rfl rfl
      case isFalse =>
        split at h
        case isTrue  => cases h; exact .silent rfl rfl
        case isFalse =>
          have ho := enqueue_own h
          exact ⟨ho.streamId, ho.limit, ho.writes⟩
  case resume k =>
    simp only [OutboundEvent.step, resume] at h
    split at h
    case h_1 => exact enqueue_own h
    case h_2 => cases h; exact .silent rfl rfl
    case h_3 => cases h; exact .silent rfl rfl
  case close =>
    simp only [OutboundEvent.step, close] at h
    split at h
    case isTrue => cases h; exact .silent rfl rfl
    case isFalse =>
      split at h
      case isTrue  => cases h; exact .single rfl rfl rfl
      case isFalse => cases h; exact .silent rfl rfl
  case fail error =>
    simp only [OutboundEvent.step, fail] at h
    split at h
    case isTrue  => cases h; exact .silent rfl rfl
    case isFalse => cases h; exact .single rfl rfl rfl
  case credit n =>
    have ho := (pumpOutbound_spec h).own
    exact ⟨ho.streamId, ho.limit, ho.writes⟩

end StreamOutbound

namespace KernelSession

variable {V : Type} [StructuredClone V] {s t u : KernelSession V}

-- What an event does to an outbound stream, and to which one.
def outboundStep (s : KernelSession V) : Event V → Option (Nat × OutboundEvent V)
  | .write stream chunk   => some (stream, .write chunk)
  | .resumeWrite stream k => some (stream, .resume k)
  | .close stream         => some (stream, .close)
  | .fail stream error    => some (stream, .fail <|
      toWireError <| error.getD <| .kernelError <| kernelError KernelErrorCode.streamFailed)
  | .receive envelope _   =>
    if s.disposed then
      none
    else
      match parseEnvelope envelope with
      | some (.streamCredit streamId bytes) =>
        (s.outboundOf streamId).map fun stream => (stream, .credit bytes)
      | _ => none
  | _ => none

theorem step_outbound (h : outboundStep s e = some (stream, ev)) :
    s.step e = s.stepOutbound stream (ev.step s.limits) := by
  cases e
  case receive envelope now =>
    simp only [outboundStep] at h
    split at h
    case isTrue  => cases h
    case isFalse hd =>
      split at h
      case h_2 => cases h
      case h_1 streamId n hp =>
        have ⟨i, hi, he⟩ := Option.map_eq_some_iff.mp h
        cases he
        simp only [step, onMessage, hd, hp, onOutbound, hi]
        rfl
  all_goals
    simp only [outboundStep, Option.some.injEq, Prod.mk.injEq, reduceCtorEq] at h
    try
      obtain ⟨rfl, rfl⟩ := h
      rfl

theorem step_quiet (h : outboundStep s e = none) (hd : e ≠ .dispose)
    (ho : ∀ m, s.disposed ∨ e ≠ .openOutboundStream m) : Quiet s (s.step e) := by
  cases e
  case call               => exact .of_calm .call
  case abort              => exact .of_calm .cancelRequest
  case timer              => exact .of_calm .timer
  case answer             => exact .of_calm .answer
  case deadline           => exact .of_calm .deadline
  case openOutboundStream m =>
    have hd : s.disposed := (ho m).resolve_right fun hn => hn rfl
    simp only [step, openOutboundStream, hd, if_true]
    exact .refl
  case pull       => exact .stepPull
  case resumePull => exact .stepPull
  case dispose    => exact absurd rfl hd
  case receive envelope now =>
    simp only [step, onMessage]
    simp only [outboundStep] at h
    split
    case isTrue => exact .refl
    case isFalse hn =>
      rw [if_neg hn] at h
      split
      case h_1  => exact .refl
      case h_2  => exact .of_calm .serveRequest
      case h_3  => exact .of_calm .onResponse
      case h_4  => exact .of_calm .onCancel
      case h_5  => exact .onOpen
      case h_6 streamId n hp =>
        rw [hp] at h
        have hi := Option.map_eq_none_iff.mp h
        simp only [onOutbound, hi]
        exact .refl
      case h_7  => exact .onInbound
      case h_8  => exact .onInbound
      case h_9  => exact .onInbound
      case h_10 hp =>
        -- No envelope is taken up as a cancellation of a stream.
        cases envelope
        case streamCredit n => cases n <;> cases hp
        all_goals cases hp
      case h_11 => exact .refl
  all_goals cases h

-- The step of one stream.
structure Moved (s : KernelSession V) (stream : Nat) (o : StreamOutbound) (o' : StreamOutbound)
    (posted : List (Envelope V)) (t : KernelSession V) : Prop where
  role     : t.role = s.role
  limits   : t.limits = s.limits
  disposed : t.disposed = s.disposed
  sequence : t.sequence = s.sequence
  inbound  : t.inbound = s.inbound
  get      : s.outbound[stream]? = some o
  outbound : t.outbound = s.outbound.set stream o'
  own      : o.Own o' posted
  port     : t.port = if s.disposed then s.port else s.port ++ posted.filter (·.clones)

structure Opened (s : KernelSession V) (metaValue : V) (t : KernelSession V) : Prop where
  role     : t.role = s.role
  limits   : t.limits = s.limits
  disposed : s.disposed = false ∧ t.disposed = false
  sequence : t.sequence = s.sequence + 1
  inbound  : t.inbound = s.inbound
  outbound : t.outbound = s.outbound ++ [({
    streamId         := s.nextId "str"
    maxBufferedBytes := s.limits.maxBufferedBytesPerStream
  } : StreamOutbound)]
  port     : t.port = s.port ++ [Envelope.streamOpen (s.nextId "str") metaValue].filter (·.clones)

structure Disposed (s t : KernelSession V) : Prop where
  role     : t.role = s.role
  limits   : t.limits = s.limits
  disposed : s.disposed = false ∧ t.disposed
  sequence : s.sequence ≤ t.sequence
  outbound : t.outbound = s.outbound.map (·.dispose)
  inbound  : t.inbound = s.inbound.map fun i =>
    if i.listed then i.failInbound <| kernelError KernelErrorCode.operationAborted else i
  port     : t.port = s.port

-- What an event does to the outbound streams.
inductive Turn (s : KernelSession V) : Event V → KernelSession V → Prop
  | quiet (h : Quiet s s') (he : ∀ p, s.outboundStep e = some p → s.outbound[p.fst]? = none) :
    Turn s e s'
  | moved (he : s.outboundStep e = some (stream, ev)) (hf : ev.step s.limits o = (o', posted))
      (hm : s.Moved stream o o' posted s') : Turn s e s'
  | opened (h : s.Opened metaValue s') : Turn s (.openOutboundStream metaValue) s'
  | disposed (h : s.Disposed s') : Turn s .dispose s'

theorem openOutboundStream_spec (hd : s.disposed = false) :
    s.Opened metaValue (s.openOutboundStream metaValue) := by
  rw [openOutboundStream, if_neg (by simp [hd])]
  dsimp only [send, post]
  rw [if_neg (by simp [hd])]
  exact ⟨rfl, rfl, ⟨hd, hd⟩, rfl, rfl, rfl, rfl⟩

-- The session after a step of one of its streams.
theorem stepOutbound_spec {f : StreamOutbound → StreamOutbound × List (Envelope V)}
    (ho : s.outbound[stream]? = some o) (hf : f o = (o', posted)) (hown : o.Own o' posted) :
    s.Moved stream o o' posted (s.stepOutbound stream f) := by
  simp only [stepOutbound, ho, hf, send, post]
  split
  case isTrue hd  => exact ⟨rfl, rfl, rfl, rfl, rfl, ho, rfl, hown, (if_pos hd).symm⟩
  case isFalse hd => exact ⟨rfl, rfl, rfl, rfl, rfl, ho, rfl, hown, (if_neg hd).symm⟩

omit [StructuredClone V] in
theorem foldl_settle (ps : List PendingRequest) {f : PendingRequest → Except (PluginErrorWire V) V} :
    Calm s (ps.foldl (fun s p => s.settle p.id (f p)) s) ∧
      (ps.foldl (fun s p => s.settle p.id (f p)) s).port = s.port := by
  induction ps generalizing s
  case nil => exact ⟨.refl, rfl⟩
  case cons p ps ih =>
    have ⟨hc, hp⟩ := ih (s := s.settle p.id (f p))
    exact ⟨Calm.settle.trans hc, hp⟩

omit [StructuredClone V] in
theorem foldl_abort (rs : List (String × Nat)) :
    Calm s (rs.foldl (fun s (_, task) => s.abortTask task) s) ∧
      (rs.foldl (fun s (_, task) => s.abortTask task) s).port = s.port := by
  induction rs generalizing s
  case nil => exact ⟨.refl, rfl⟩
  case cons r rs ih =>
    have h : Calm s (s.abortTask r.snd) := ⟨.keeps rfl rfl rfl le_rfl rfl, rfl, rfl⟩
    have ⟨hc, hp⟩ := ih (s := s.abortTask r.snd)
    exact ⟨h.trans hc, hp⟩

omit [StructuredClone V] in
theorem dispose_spec (hd : s.disposed = false) : s.Disposed s.dispose := by
  rw [dispose, if_neg (by simp [hd])]
  have ⟨h₁, hp₁⟩ := foldl_settle (s := s) s.pending
    (f := fun _ => .error <| kernelError KernelErrorCode.operationAborted)
  generalize s.pending.foldl _ s = t at h₁ hp₁
  have ⟨h₂, hp₂⟩ := foldl_abort (s := t) t.remote
  have h := h₁.trans h₂
  constructor
  case role     => exact h.role
  case limits   => exact h.limits
  case disposed => exact ⟨hd, rfl⟩
  case sequence => exact h.sequence
  case outbound => exact congrArg _ h.outbound
  case inbound  => exact congrArg _ h.inbound
  case port     => exact hp₂.trans hp₁

-- The step lemma of the outbound streams.
theorem turn {e : Event V} : s.Turn e (s.step e) := by
  cases he : s.outboundStep e
  case some p =>
    obtain ⟨stream, ev⟩ := p
    cases ho : s.outbound[stream]?
    case some o =>
      refine .moved (o := o) he rfl ?_
      rw [step_outbound he]
      exact stepOutbound_spec ho rfl <| StreamOutbound.step_own rfl
    case none =>
      have hn : s.step e = s := by simp [step_outbound he, stepOutbound, ho]
      rw [hn]
      exact .quiet .refl fun p hp => by cases he.symm.trans hp; exact ho
  case none =>
    have hq (hq : Quiet s (s.step e)) : s.Turn e (s.step e) :=
      .quiet hq fun p hp => by cases he.symm.trans hp
    cases e
    case dispose =>
      cases hd : s.disposed
      case false => exact .disposed <| dispose_spec hd
      case true  =>
        refine hq ?_
        rw [step, dispose, if_pos hd]
        exact .refl
    case openOutboundStream =>
      cases hd : s.disposed
      case false => exact .opened <| openOutboundStream_spec hd
      case true  => exact hq <| step_quiet he nofun fun _ => .inl hd
    all_goals
      exact hq <| step_quiet he nofun fun _ => .inr nofun

section Names

def idAt (role kind : String) (n : Nat) : String :=
  s!"{role}:{kind}:{n}"

theorem idAt_inj {r kind : String} (h : idAt r kind m = idAt r kind n) : m = n := by
  have h := congrArg String.toList h
  simp only [idAt, String.toList_append, List.append_cancel_left_eq] at h
  exact Nat.repr_injective <| String.toList_inj.mp h

def streamIds (s : KernelSession V) : List String :=
  s.outbound.map (·.streamId)

-- The identifiers of the outbound streams. Nothing is posted of a stream before it is opened.
structure Named (s : KernelSession V) : Prop where
  ids   : ∀ i ∈ s.streamIds, ∃ n ≤ s.sequence, i = idAt s.role "str" n
  nodup : s.streamIds.Nodup
  fresh : ∀ i ∉ s.streamIds, ofStream i s.port = []

omit [StructuredClone V] in
theorem mem_streamIds {k : Nat} (h : s.outbound[k]? = some o) : o.streamId ∈ s.streamIds :=
  List.mem_map_of_mem <| List.mem_of_getElem? h

omit [StructuredClone V] in
theorem Named.ne_of_ne {j k : Nat} (h : s.Named) (hj : s.outbound[j]? = some o)
    (hk : s.outbound[k]? = some p) (hn : j ≠ k) : o.streamId ≠ p.streamId := by
  intro he
  have hj' : s.streamIds[j]? = some o.streamId := by simp [streamIds, hj]
  have hk' : s.streamIds[k]? = some o.streamId := by simp [streamIds, hk, he]
  have ⟨hjl, hjx⟩ := List.getElem?_eq_some_iff.mp hj'
  have ⟨hkl, hkx⟩ := List.getElem?_eq_some_iff.mp hk'
  exact hn <| h.nodup.getElem_inj_iff.mp <| hjx.trans hkx.symm

omit [StructuredClone V] in
theorem Named.fresh_nextId (h : s.Named) : s.nextId "str" ∉ s.streamIds := by
  intro (hm : idAt s.role "str" (s.sequence + 1) ∈ s.streamIds)
  have ⟨n, hn, hi⟩ := h.ids _ hm
  have := idAt_inj hi
  omega

theorem ofStream_clones {p : List (Envelope V)} :
    ofStream i (p.filter (·.clones)) = (ofStream i p).filter (·.clones) := by
  simp only [ofStream, List.filter_filter, Bool.and_comm]

section Moved

variable {posted : List (Envelope V)} (h : s.Moved stream o o' posted t)

include h

theorem Moved.ofStream_own : ofStream o.streamId t.port =
    ofStream o.streamId s.port ++ if s.disposed then [] else posted.filter (·.clones) := by
  rw [h.port]
  split
  case isTrue  => simp
  case isFalse => rw [ofStream_append, ofStream_clones, ofStream_eq_self h.own.writes]

theorem Moved.ofStream_other (hi : o.streamId ≠ i) : ofStream i t.port = ofStream i s.port := by
  rw [h.port]
  split
  case isTrue  => rfl
  case isFalse =>
    have hn : ofStream i posted = [] := ofStream_eq_nil fun e he hc =>
      hi <| Option.some.inj <| (h.own.writes e he).symm.trans hc
    rw [ofStream_append, ofStream_clones, hn, List.filter_nil, List.append_nil]

theorem Moved.streamIds : t.streamIds = s.streamIds := by
  rw [KernelSession.streamIds, h.outbound, List.map_set, h.own.streamId]
  refine List.ext_getElem? fun k => ?_
  rw [List.getElem?_set]
  split
  case isFalse => rfl
  case isTrue hk =>
    have ⟨hlt, hx⟩ := List.getElem?_eq_some_iff.mp h.get
    simp [KernelSession.streamIds, ← hk, hlt, hx]

theorem Moved.get_self : t.outbound[stream]? = some o' := by
  rw [h.outbound]
  exact List.getElem?_set_self (List.getElem?_eq_some_iff.mp h.get).fst

theorem Moved.get_of_ne (hk : stream ≠ k) : t.outbound[k]? = s.outbound[k]? := by
  rw [h.outbound, List.getElem?_set_ne hk]

end Moved

omit [StructuredClone V] in
theorem Quiet.ofStream (h : Quiet s t) : PluginSdk.ofStream i t.port = PluginSdk.ofStream i s.port := by
  have ⟨out, hp, hn⟩ := h.port
  have ho : PluginSdk.ofStream i out = [] := ofStream_eq_nil fun e he => by simp [hn e he]
  rw [hp, ofStream_append, ho, List.append_nil]

theorem dispose_streamId {o : StreamOutbound} : o.dispose.streamId = o.streamId := by
  rw [StreamOutbound.dispose]
  split <;> rfl

omit [StructuredClone V] in
theorem Disposed.streamIds (h : s.Disposed t) : t.streamIds = s.streamIds := by
  simp [KernelSession.streamIds, h.outbound, dispose_streamId, Function.comp_def]

theorem Opened.ofStream_own (h : s.Opened metaValue t) (hn : s.Named) :
    ofStream (s.nextId "str") t.port =
      [Envelope.streamOpen (s.nextId "str") metaValue].filter (·.clones) := by
  rw [h.port, ofStream_append, hn.fresh _ hn.fresh_nextId, ofStream_clones]
  rw [ofStream_eq_self fun e he => by rw [List.mem_singleton.mp he]; rfl]
  rfl

theorem Opened.ofStream_other (h : s.Opened metaValue t) (hi : s.nextId "str" ≠ i) :
    ofStream i t.port = ofStream i s.port := by
  have hn : ofStream i [Envelope.streamOpen (s.nextId "str") metaValue] = [] :=
    ofStream_eq_nil fun e he hc => by
      rw [List.mem_singleton.mp he] at hc
      exact hi <| Option.some.inj hc
  rw [h.port, ofStream_append, ofStream_clones, hn, List.filter_nil, List.append_nil]

omit [StructuredClone V] in
theorem Opened.streamIds [StructuredClone V] (h : s.Opened metaValue t) :
    t.streamIds = s.streamIds ++ [s.nextId "str"] := by
  simp [KernelSession.streamIds, h.outbound]

theorem Named.turn {e : Event V} (h : s.Named) (ht : s.Turn e t) : t.Named := by
  cases ht
  case quiet he hq =>
    have hi : t.streamIds = s.streamIds := by rw [streamIds, streamIds, hq.outbound]
    constructor
    case ids =>
      intro i hm
      have ⟨n, hn, hi⟩ := h.ids i (hi ▸ hm)
      exact ⟨n, hn.trans hq.sequence, hq.role ▸ hi⟩
    case nodup => exact hi ▸ h.nodup
    case fresh =>
      intro i hm
      rw [hq.ofStream]
      exact h.fresh i (hi ▸ hm)
  case moved stream ev o o' posted he hf hm =>
    have hi := hm.streamIds
    constructor
    case ids =>
      intro i hi'
      rw [hm.sequence, hm.role]
      exact h.ids i (hi ▸ hi')
    case nodup => exact hi ▸ h.nodup
    case fresh =>
      intro i hi'
      rw [hi] at hi'
      have hne : o.streamId ≠ i := by
        rintro rfl
        exact hi' <| mem_streamIds hm.get
      rw [hm.ofStream_other hne]
      exact h.fresh i hi'
  case opened metaValue ho =>
    have hi := ho.streamIds
    have hfresh := h.fresh_nextId
    constructor
    case ids =>
      intro i hm
      rw [ho.sequence, ho.role]
      rw [hi, List.mem_append] at hm
      rcases hm with hm | hm
      · have ⟨n, hn, hi⟩ := h.ids i hm
        exact ⟨n, Nat.le_succ_of_le hn, hi⟩
      · exact ⟨s.sequence + 1, le_rfl, List.mem_singleton.mp hm⟩
    case nodup =>
      rw [hi]
      refine List.nodup_append.mpr ⟨h.nodup, List.nodup_singleton _, fun i hi j hj he => ?_⟩
      obtain rfl := List.mem_singleton.mp hj
      exact hfresh <| he ▸ hi
    case fresh =>
      intro i hm
      rw [hi, List.mem_append, not_or] at hm
      have hne : s.nextId "str" ≠ i := fun he => hm.right <| List.mem_singleton.mpr he.symm
      rw [ho.ofStream_other hne]
      exact h.fresh i hm.left
  case disposed hd =>
    constructor
    case ids =>
      intro i hi
      have ⟨n, hn, hi⟩ := h.ids i (hd.streamIds ▸ hi)
      exact ⟨n, hn.trans hd.sequence, hd.role ▸ hi⟩
    case nodup => exact hd.streamIds ▸ h.nodup
    case fresh =>
      intro i hi
      rw [hd.port]
      exact h.fresh i (hd.streamIds ▸ hi)

end Names
end KernelSession
end PluginSdk
