import Mathlib
import NeoTavern.PluginSdk.Session

namespace PluginSdk

-- The stream that the sender of an envelope writes to.
def Envelope.writes {V : Type} : Envelope V → Option String
  | streamOpen i _    => some i
  | streamChunk i _ _ => some i
  | streamEnd i       => some i
  | streamError i _   => some i
  | _                 => none

-- The stream that the sender of an envelope reads from.
def Envelope.reads {V : Type} : Envelope V → Option String
  | streamCredit i _ => some i
  | streamCancel i   => some i
  | _                => none

namespace KernelSession

variable {V : Type} [StructuredClone V] {s t u : KernelSession V}

-- What a step leaves alone that posts envelopes of the kind `p` only.
structure Posts (p : Envelope V → Prop) (s t : KernelSession V) : Prop where
  role     : t.role = s.role
  limits   : t.limits = s.limits
  disposed : t.disposed = s.disposed
  sequence : s.sequence ≤ t.sequence
  port     : ∃ out, t.port = s.port ++ out ∧ ∀ e ∈ out, p e

namespace Posts

variable {p q : Envelope V → Prop}

omit [StructuredClone V] in
theorem refl : Posts p s s :=
  ⟨rfl, rfl, rfl, Nat.le_refl _, [], (List.append_nil _).symm, nofun⟩

omit [StructuredClone V] in
theorem trans (h₁ : Posts p s t) (h₂ : Posts p t u) : Posts p s u := by
  have ⟨xs, hxs, hx⟩ := h₁.port
  have ⟨ys, hys, hy⟩ := h₂.port
  constructor
  case role     => exact h₂.role.trans h₁.role
  case limits   => exact h₂.limits.trans h₁.limits
  case disposed => exact h₂.disposed.trans h₁.disposed
  case sequence => exact Nat.le_trans h₁.sequence h₂.sequence
  case port     =>
    refine ⟨xs ++ ys, ?_, fun e he => ?_⟩
    · rw [hys, hxs, List.append_assoc]
    · exact (List.mem_append.mp he).elim (hx e) (hy e)

omit [StructuredClone V] in
theorem mono (h : Posts p s t) (hpq : ∀ e, p e → q e) : Posts q s t :=
  have ⟨out, ho, hp⟩ := h.port
  ⟨h.role, h.limits, h.disposed, h.sequence, out, ho, fun e he => hpq e (hp e he)⟩

theorem send {out : List (Envelope V)} (h : ∀ e ∈ out, p e) : Posts p s (s.send out) := by
  unfold KernelSession.send KernelSession.post
  split
  case isTrue  => exact .refl
  case isFalse =>
    exact ⟨rfl, rfl, rfl, Nat.le_refl _, _, rfl, fun e he => h e <| List.mem_of_mem_filter he⟩

omit [StructuredClone V] in
theorem keeps (hr : t.role = s.role) (hl : t.limits = s.limits) (hd : t.disposed = s.disposed)
    (hs : s.sequence ≤ t.sequence) (hp : t.port = s.port) : Posts p s t :=
  ⟨hr, hl, hd, hs, [], by rw [hp, List.append_nil], nofun⟩

end Posts

-- A step that has nothing to do with streams.
structure Calm (s t : KernelSession V) : Prop
    extends Posts (fun e => e.writes = none ∧ e.reads = none) s t where
  outbound : t.outbound = s.outbound
  inbound  : t.inbound = s.inbound

namespace Calm

omit [StructuredClone V] in
theorem refl : Calm s s :=
  ⟨.refl, rfl, rfl⟩

omit [StructuredClone V] in
theorem trans (h₁ : Calm s t) (h₂ : Calm t u) : Calm s u :=
  ⟨h₁.toPosts.trans h₂.toPosts, h₂.outbound.trans h₁.outbound, h₂.inbound.trans h₁.inbound⟩

theorem send {e : Envelope V} (hw : e.writes = none) (hr : e.reads = none) : Calm s (s.send [e]) := by
  refine ⟨.send fun x hx => ?_, ?_, ?_⟩
  · rw [List.mem_singleton.mp hx]
    exact ⟨hw, hr⟩
  · rw [KernelSession.send, post]
    split <;> rfl
  · rw [KernelSession.send, post]
    split <;> rfl

variable {callId : String}

omit [StructuredClone V] in
theorem settle : Calm s (s.settle callId outcome) :=
  ⟨.keeps rfl rfl rfl (Nat.le_refl _) rfl, rfl, rfl⟩

omit [StructuredClone V] in
theorem forget : Calm s (s.forget callId) :=
  ⟨.keeps rfl rfl rfl (Nat.le_refl _) rfl, rfl, rfl⟩

theorem cancelRequest : Calm s (s.cancelRequest callId) := by
  unfold KernelSession.cancelRequest
  split
  case isTrue  => exact (forget.trans <| send rfl rfl).trans settle
  case isFalse => exact .refl

theorem call : Calm s (s.call method params deadlineMs aborted key now) := by
  unfold KernelSession.call
  split
  case isTrue  => exact .refl
  case isFalse =>
    have hs : Calm s { s with
        sequence := s.sequence + 1
        calls    := s.calls ++ [({ id := s.nextId "req", method, params } : Call V)]
        pending  := s.pending ++
          [({ id := s.nextId "req", timer := deadlineMs.isSome } : PendingRequest)]
      } := ⟨.keeps rfl rfl rfl (Nat.le_succ _) rfl, rfl, rfl⟩
    have hs := hs.trans <| send (e := .rpcRequest (s.nextId "req") s.instanceId method params
      (deadlineMs.map fun ms => now + max 1 ms) key) rfl rfl
    dsimp only
    split
    case isTrue  => exact hs.trans cancelRequest
    case isFalse => exact hs

omit [StructuredClone V] in
theorem timer : Calm s (s.timer callId) := by
  unfold KernelSession.timer
  split
  · exact forget.trans settle
  · exact .refl

omit [StructuredClone V] in
theorem onResponse : Calm s (s.onResponse callId result) := by
  unfold KernelSession.onResponse
  split
  case isTrue  => exact forget.trans settle
  case isFalse => exact .refl

theorem serveRequest : Calm s (s.serveRequest callId method due now) := by
  unfold KernelSession.serveRequest
  split
  · exact send rfl rfl
  · split
    · exact send rfl rfl
    · exact ⟨.keeps rfl rfl rfl (Nat.le_refl _) rfl, rfl, rfl⟩

theorem answer : Calm s (s.answer task outcome) := by
  unfold KernelSession.answer
  split
  case h_2 => exact .refl
  case h_1 i aborted _ _ =>
    have h {w : KernelSession V} (hw : Calm s w) : Calm s ({ w with
        serving := w.serving.modify task fun t => { t with running := false, deadlineTimer := false }
      }.unregister i) :=
      hw.trans ⟨.keeps rfl rfl rfl (Nat.le_refl _) rfl, rfl, rfl⟩
    exact h <| send rfl rfl

omit [StructuredClone V] in
theorem deadline : Calm s (s.deadline task) := by
  unfold KernelSession.deadline
  split
  · exact ⟨.keeps rfl rfl rfl (Nat.le_refl _) rfl, rfl, rfl⟩
  · exact .refl

omit [StructuredClone V] in
theorem onCancel : Calm s (s.onCancel callId) := by
  unfold KernelSession.onCancel
  split
  · exact ⟨.keeps rfl rfl rfl (Nat.le_refl _) rfl, rfl, rfl⟩
  · exact .refl

end Calm

-- A step that leaves the outbound streams alone.
structure Quiet (s t : KernelSession V) : Prop extends Posts (fun e => e.writes = none) s t where
  outbound : t.outbound = s.outbound

namespace Quiet

omit [StructuredClone V] in
theorem refl : Quiet s s :=
  ⟨.refl, rfl⟩

omit [StructuredClone V] in
theorem trans (h₁ : Quiet s t) (h₂ : Quiet t u) : Quiet s u :=
  ⟨h₁.toPosts.trans h₂.toPosts, h₂.outbound.trans h₁.outbound⟩

omit [StructuredClone V] in
theorem of_calm (h : Calm s t) : Quiet s t :=
  ⟨h.toPosts.mono fun _ h => h.left, h.outbound⟩

theorem send {out : List (Envelope V)} (h : ∀ e ∈ out, e.writes = none) : Quiet s (s.send out) := by
  refine ⟨.send h, ?_⟩
  rw [KernelSession.send, post]
  split <;> rfl

theorem replenishCredit : Quiet s (s.replenishCredit streamId) := by
  unfold KernelSession.replenishCredit
  split
  case h_2 => exact .refl
  case h_1 stream _ =>
    split
    case h_2 => exact .refl
    case h_1 i _ =>
      have hc : ∀ e ∈ (i.replenishCredit s.limits).snd, e.writes = none := by
        unfold StreamInbound.replenishCredit
        dsimp only
        split <;> simp [Envelope.writes]
      have h : Quiet s { s with inbound := s.inbound.set stream (i.replenishCredit s.limits).fst } :=
        ⟨.keeps rfl rfl rfl (Nat.le_refl _) rfl, rfl⟩
      exact h.trans <| send hc

theorem stepPull : Quiet s (s.stepPull stream f) := by
  unfold KernelSession.stepPull
  split
  case h_2 => exact .refl
  case h_1 i _ =>
    have h : Quiet s { s with inbound := s.inbound.set stream (f i).fst } :=
      ⟨.keeps rfl rfl rfl (Nat.le_refl _) rfl, rfl⟩
    dsimp only
    split
    case isTrue  => exact h.trans replenishCredit
    case isFalse => exact h

omit [StructuredClone V] in
theorem onInbound : Quiet s (s.onInbound streamId f) := by
  unfold KernelSession.onInbound
  split
  · exact ⟨.keeps rfl rfl rfl (Nat.le_refl _) rfl, rfl⟩
  · exact .refl

theorem onOpen : Quiet s (s.onOpen streamId) := by
  have h {w : KernelSession V} (hw : Quiet s w) :
      Quiet s (w.send [.streamCredit streamId s.limits.maxInFlightBytes]) :=
    hw.trans <| send fun e he => by simp_all [Envelope.writes]
  exact h ⟨.keeps rfl rfl rfl (Nat.le_refl _) rfl, rfl⟩

end Quiet
-- A step that leaves the inbound streams alone.
structure Still (s t : KernelSession V) : Prop extends Posts (fun _ => True) s t where
  inbound : t.inbound = s.inbound

namespace Still

omit [StructuredClone V] in
theorem refl : Still s s :=
  ⟨.refl, rfl⟩

omit [StructuredClone V] in
theorem of_calm (h : Calm s t) : Still s t :=
  ⟨h.toPosts.mono fun _ _ => trivial, h.inbound⟩

theorem stepOutbound : Still s (s.stepOutbound stream f) := by
  unfold KernelSession.stepOutbound
  split
  case h_2 => exact .refl
  case h_1 o _ =>
    have h : Posts (fun _ => True) s { s with outbound := s.outbound.set stream (f o).fst } :=
      .keeps rfl rfl rfl (Nat.le_refl _) rfl
    refine ⟨h.trans <| .send fun _ _ => trivial, ?_⟩
    rw [send, post]
    split <;> rfl

theorem onOutbound : Still s (s.onOutbound streamId f) := by
  unfold KernelSession.onOutbound
  split
  · exact stepOutbound
  · exact .refl

theorem openOutboundStream : Still s (s.openOutboundStream metaValue) := by
  unfold KernelSession.openOutboundStream
  split
  case isTrue => exact .refl
  case isFalse =>
    have h : Posts (fun _ => True) s { s with
        sequence := s.sequence + 1
        outbound := s.outbound ++ [({
          streamId         := s.nextId "str"
          maxBufferedBytes := s.limits.maxBufferedBytesPerStream
        } : StreamOutbound)]
      } := .keeps rfl rfl rfl (Nat.le_succ _) rfl
    refine ⟨h.trans <| .send fun _ _ => trivial, ?_⟩
    rw [send, post]
    split <;> rfl

end Still
end KernelSession
end PluginSdk
