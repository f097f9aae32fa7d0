import NeoTavern.PluginSdk.Outbound

namespace PluginSdk

-- What can happen to an inbound stream.
inductive InboundEvent (V : Type)
  | pull
  | resume (k : Nat)
  | chunk (seq : Nat) (buffer : Bytes)
  | finish
  | error (error : PluginErrorWire V)

-- The second component says whether a call of `pull` asks for more credit.
def InboundEvent.step {V : Type} : InboundEvent V → StreamInbound V → StreamInbound V × Bool
  | pull,             i => i.pull
  | resume k,         i => i.resume k
  | chunk seq buffer, i => (i.onChunk seq buffer, false)
  | finish,           i => (i.onEnd, false)
  | error e,          i => (i.failInbound e, false)

namespace KernelSession

variable {V : Type} [StructuredClone V] {s t u : KernelSession V}

-- What an event does to an inbound stream, and to which one.
def inboundStep (s : KernelSession V) : Event V → Option (Nat × InboundEvent V)
  | .pull stream         => some (stream, .pull)
  | .resumePull stream k => some (stream, .resume k)
  | .receive envelope _  =>
    if s.disposed then
      none
    else
      match envelope with
      | .streamChunk streamId seq buffer => (s.inboundOf streamId).map fun i => (i, .chunk seq buffer)
      | .streamEnd streamId              => (s.inboundOf streamId).map fun i => (i, .finish)
      | .streamError streamId error      => (s.inboundOf streamId).map fun i => (i, .error error)
      | _                                => none
  | _ => none

-- The session after a step of one of its inbound streams.
def intake (s : KernelSession V) (stream : Nat) (i : StreamInbound V)
    (f : StreamInbound V → StreamInbound V × Bool) : KernelSession V :=
  let t := { s with inbound := s.inbound.set stream (f i).fst }
  if (f i).snd then t.replenishCredit i.streamId else t

theorem eq_of_parseEnvelope {V : Type} {e e' : Envelope V} (h : parseEnvelope e = some e') :
    e = e' := by
  unfold parseEnvelope at h
  split at h
  case h_3 => exact Option.some.inj h
  all_goals cases h

omit [StructuredClone V] in
theorem onInbound_none {f : StreamInbound V → StreamInbound V}
    (h : ∀ stream, s.inboundOf streamId = some stream → s.inbound[stream]? = none) :
    s.onInbound streamId f = s := by
  unfold onInbound
  split
  case h_2 => rfl
  case h_1 stream hi =>
    rw [List.modify_eq_self (List.getElem?_eq_none_iff.mp <| h _ hi)]

theorem onInbound_eq {f : StreamInbound V → StreamInbound V} (h : s.inboundOf streamId = some stream)
    (hi : s.inbound[stream]? = some i) :
    s.onInbound streamId f = s.intake stream i fun i => (f i, false) := by
  have hm : s.inbound.modify stream f = s.inbound.set stream (f i) := by
    rw [List.modify_eq_set_getElem?, hi]
    rfl
  simp [onInbound, intake, h, hm]

theorem step_inbound {e : Event V} (h : s.inboundStep e = some (stream, ev))
    (hi : s.inbound[stream]? = some i) : s.step e = s.intake stream i ev.step := by
  cases e
  case pull =>
    cases h
    simp only [step, stepPull, hi]
    exact rfl
  case resumePull =>
    cases h
    simp only [step, stepPull, hi]
    exact rfl
  case receive envelope now =>
    simp only [inboundStep] at h
    split at h
    case isTrue => cases h
    case isFalse hd =>
      split at h
      case h_4 => cases h
      all_goals
        obtain ⟨j, hj, he⟩ := Option.map_eq_some_iff.mp h
        cases he
        rw [step, onMessage, if_neg hd]
        exact onInbound_eq hj hi
  all_goals cases h

theorem step_still {e : Event V} (h : ∀ p, s.inboundStep e = some p → s.inbound[p.fst]? = none)
    (hd : s.disposed ∨ e ≠ .dispose)
    (ho : ∀ i m now, s.disposed ∨ e ≠ .receive (.streamOpen i m) now) : Still s (s.step e) := by
  cases e
  case call               => exact .of_calm .call
  case abort              => exact .of_calm .cancelRequest
  case timer              => exact .of_calm .timer
  case answer             => exact .of_calm .answer
  case deadline           => exact .of_calm .deadline
  case openOutboundStream => exact .openOutboundStream
  case write              => exact .stepOutbound
  case resumeWrite        => exact .stepOutbound
  case close              => exact .stepOutbound
  case fail               => exact .stepOutbound
  case dispose            =>
    have hd := hd.resolve_right fun hn => hn rfl
    simp only [step, dispose, hd, if_true]
    exact .refl
  case pull stream        =>
    have hn : s.inbound[stream]? = none := h _ rfl
    simp only [step, stepPull, hn]
    exact .refl
  case resumePull stream k =>
    have hn : s.inbound[stream]? = none := h _ rfl
    simp only [step, stepPull, hn]
    exact .refl
  case receive envelope now =>
    simp only [step, onMessage]
    simp only [inboundStep] at h
    split
    case isTrue => exact .refl
    case isFalse hn =>
      simp only [hn] at h
      split
      case h_1  => exact .refl
      case h_2  => exact .of_calm .serveRequest
      case h_3  => exact .of_calm .onResponse
      case h_4  => exact .of_calm .onCancel
      case h_5 i m hp =>
        obtain rfl := eq_of_parseEnvelope hp
        exact absurd rfl <| (ho i m now).resolve_left hn
      case h_6  => exact .onOutbound
      case h_7 i seq buffer hp =>
        obtain rfl := eq_of_parseEnvelope hp
        rw [onInbound_none fun stream hi => h (stream, .chunk seq buffer) (by simp [hi])]
        exact .refl
      case h_8 i hp =>
        obtain rfl := eq_of_parseEnvelope hp
        rw [onInbound_none fun stream hi => h (stream, .finish) (by simp [hi])]
        exact .refl
      case h_9 i error hp =>
        obtain rfl := eq_of_parseEnvelope hp
        rw [onInbound_none fun stream hi => h (stream, .error error) (by simp [hi])]
        exact .refl
      case h_10 => exact .onOutbound
      case h_11 => exact .refl

-- What an event does to the inbound streams.
inductive Intake (s : KernelSession V) : Event V → KernelSession V → Prop
  | still (h : Still s s') (he : ∀ p, s.inboundStep e = some p → s.inbound[p.fst]? = none) :
    Intake s e s'
  | read (he : s.inboundStep e = some (stream, ev)) (hi : s.inbound[stream]? = some i) :
    Intake s e (s.intake stream i ev.step)
  | opened (hd : s.disposed = false) : Intake s (.receive (.streamOpen i m) now) (s.onOpen i)
  | disposed (hd : s.disposed = false) : Intake s .dispose s.dispose

-- The step lemma of the inbound streams.
theorem taken {e : Event V} : s.Intake e (s.step e) := by
  by_cases h : ∀ p, s.inboundStep e = some p → s.inbound[p.fst]? = none
  case neg =>
    obtain ⟨⟨stream, ev⟩, hp⟩ := not_forall.mp h
    obtain ⟨he, hi⟩ := Classical.not_imp.mp hp
    have ⟨i, hi⟩ := Option.ne_none_iff_exists'.mp hi
    rw [step_inbound he hi]
    exact .read he hi
  case pos =>
    cases hd : s.disposed
    case true  => exact .still (step_still h (.inl hd) fun _ _ _ => .inl hd) h
    case false =>
      by_cases ho : ∃ i m now, e = .receive (.streamOpen i m) now
      case pos =>
        obtain ⟨i, m, now, rfl⟩ := ho
        have ht : s.step (.receive (.streamOpen i m) now) = s.onOpen i := by
          rw [step, onMessage, if_neg (by simp [hd])]
          rfl
        rw [ht]
        exact .opened hd
      case neg =>
        by_cases he : e = .dispose
        case pos => exact he ▸ .disposed hd
        case neg =>
          exact .still (step_still h (.inr he) fun i m now => .inr fun hn => ho ⟨i, m, now, hn⟩) h

-- What `replenishCredit` leaves of the inbound streams.
theorem inbound_replenishCredit : (s.replenishCredit streamId).inbound =
    match s.inboundOf streamId with
    | some stream => s.inbound.modify stream fun i => (i.replenishCredit s.limits).fst
    | none        => s.inbound := by
  unfold replenishCredit
  cases s.inboundOf streamId
  case none        => rfl
  case some stream =>
    dsimp only
    split
    case h_2 hn => rw [List.modify_eq_self (List.getElem?_eq_none_iff.mp hn)]
    case h_1 i hi =>
      rw [send, post]
      split
      all_goals
        rw [List.modify_eq_set_getElem?, hi]
        rfl

theorem inbound_onOpen (streamId) : (s.onOpen streamId).inbound = (s.inbound.map fun i : StreamInbound V =>
      if i.streamId = streamId then { i with listed := false } else i) ++ [({
    streamId
    grantedNotReceived := s.limits.maxInFlightBytes
    maxTotalBytes      := s.limits.maxTotalBytes
  } : StreamInbound V)] := by
  rw [onOpen, send, post]
  split <;> rfl

end KernelSession
end PluginSdk
