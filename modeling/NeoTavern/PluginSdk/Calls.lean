import NeoTavern.PluginSdk.Inbound

namespace PluginSdk

def Envelope.isRequest {V : Type} : Envelope V → Bool
  | rpcRequest .. => true
  | _             => false

def Envelope.isResponse {V : Type} : Envelope V → Bool
  | rpcResponse .. => true
  | _              => false

theorem Envelope.isRequest_eq_false {V : Type} {e : Envelope V}
    (h : e.writes ≠ none ∨ e.reads ≠ none) : e.isRequest = false ∧ e.isResponse = false := by
  cases e
  case rpcRequest  => simp [writes, reads] at h
  case rpcResponse => simp [writes, reads] at h
  all_goals exact ⟨rfl, rfl⟩

namespace KernelSession

variable {V : Type} [StructuredClone V] {s t u : KernelSession V}

-- A step that leaves the calls of this side alone.
structure SameCalls (s t : KernelSession V) : Prop
    extends Posts (fun e => e.isRequest = false) s t where
  calls   : t.calls = s.calls
  pending : t.pending = s.pending

-- A step that leaves the requests of the peer alone.
structure SameServing (s t : KernelSession V) : Prop
    extends Posts (fun e => e.isResponse = false) s t where
  serving  : t.serving = s.serving
  remote   : t.remote = s.remote
  handlers : t.handlers = s.handlers

-- A step that leaves both alone.
structure Aside (s t : KernelSession V) : Prop where
  calls   : s.SameCalls t
  serving : s.SameServing t

section Aside

omit [StructuredClone V] in
theorem SameCalls.refl : s.SameCalls s :=
  ⟨.refl, rfl, rfl⟩

omit [StructuredClone V] in
theorem SameServing.refl : s.SameServing s :=
  ⟨.refl, rfl, rfl, rfl⟩

omit [StructuredClone V] in
theorem Aside.refl : s.Aside s :=
  ⟨.refl, .refl⟩

omit [StructuredClone V] in
theorem SameCalls.trans (h₁ : s.SameCalls t) (h₂ : t.SameCalls u) : s.SameCalls u :=
  ⟨h₁.toPosts.trans h₂.toPosts, h₂.calls.trans h₁.calls, h₂.pending.trans h₁.pending⟩

omit [StructuredClone V] in
theorem SameServing.trans (h₁ : s.SameServing t) (h₂ : t.SameServing u) : s.SameServing u :=
  ⟨h₁.toPosts.trans h₂.toPosts, h₂.serving.trans h₁.serving, h₂.remote.trans h₁.remote,
    h₂.handlers.trans h₁.handlers⟩

omit [StructuredClone V] in
theorem Aside.trans (h₁ : s.Aside t) (h₂ : t.Aside u) : s.Aside u :=
  ⟨h₁.calls.trans h₂.calls, h₁.serving.trans h₂.serving⟩

theorem SameCalls.send {out : List (Envelope V)} (h : ∀ e ∈ out, e.isRequest = false) :
    s.SameCalls (s.send out) := by
  refine ⟨.send h, ?_, ?_⟩
  all_goals
    rw [KernelSession.send, post]
    split <;> rfl

theorem SameServing.send {out : List (Envelope V)} (h : ∀ e ∈ out, e.isResponse = false) :
    s.SameServing (s.send out) := by
  refine ⟨.send h, ?_, ?_, ?_⟩
  all_goals
    rw [KernelSession.send, post]
    split <;> rfl

theorem SameCalls.single {e : Envelope V} (h : e.isRequest = false) : s.SameCalls (s.send [e]) :=
  .send fun x hx => by rw [List.mem_singleton.mp hx, h]

theorem SameServing.single {e : Envelope V} (h : e.isResponse = false) :
    s.SameServing (s.send [e]) :=
  .send fun x hx => by rw [List.mem_singleton.mp hx, h]

theorem Aside.send {out : List (Envelope V)} (h : ∀ e ∈ out, e.writes ≠ none ∨ e.reads ≠ none) :
    s.Aside (s.send out) :=
  ⟨.send fun e he => (Envelope.isRequest_eq_false <| h e he).left,
    .send fun e he => (Envelope.isRequest_eq_false <| h e he).right⟩

omit [StructuredClone V] in
theorem Aside.outbound {os : List StreamOutbound} : s.Aside { s with outbound := os } :=
  ⟨⟨.keeps rfl rfl rfl le_rfl rfl, rfl, rfl⟩, ⟨.keeps rfl rfl rfl le_rfl rfl, rfl, rfl, rfl⟩⟩

omit [StructuredClone V] in
theorem Aside.inbound {is : List (StreamInbound V)} : s.Aside { s with inbound := is } :=
  ⟨⟨.keeps rfl rfl rfl le_rfl rfl, rfl, rfl⟩, ⟨.keeps rfl rfl rfl le_rfl rfl, rfl, rfl, rfl⟩⟩

theorem Aside.stepOutbound (ev : OutboundEvent V) :
    s.Aside (s.stepOutbound stream (ev.step s.limits)) := by
  unfold KernelSession.stepOutbound
  split
  case h_2 => exact .refl
  case h_1 o _ =>
    refine Aside.outbound.trans <| .send fun e he => .inl ?_
    have hw := (StreamOutbound.step_own (s := o) (rfl : ev.step s.limits o = _)).writes e he
    simp [hw]

theorem Aside.openOutboundStream : s.Aside (s.openOutboundStream metaValue) := by
  unfold KernelSession.openOutboundStream
  split
  case isTrue  => exact .refl
  case isFalse =>
    have h : s.Aside { s with
        sequence := s.sequence + 1
        outbound := s.outbound ++ [({
          streamId         := s.nextId "str"
          maxBufferedBytes := s.limits.maxBufferedBytesPerStream
        } : StreamOutbound)]
      } := ⟨⟨.keeps rfl rfl rfl (Nat.le_succ _) rfl, rfl, rfl⟩,
        ⟨.keeps rfl rfl rfl (Nat.le_succ _) rfl, rfl, rfl, rfl⟩⟩
    exact h.trans <| .send fun e he => .inl <| by simp_all [Envelope.writes]

theorem Aside.replenishCredit : s.Aside (s.replenishCredit streamId) := by
  unfold KernelSession.replenishCredit
  split
  case h_2 => exact .refl
  case h_1 =>
    split
    case h_2 => exact .refl
    case h_1 i _ =>
      have hc : ∀ e ∈ (i.replenishCredit s.limits).snd, e.reads ≠ none := by
        unfold StreamInbound.replenishCredit
        dsimp only
        split <;> simp [Envelope.reads]
      exact Aside.inbound.trans <| .send fun e he => .inr <| hc e he

theorem Aside.stepPull {f : StreamInbound V → StreamInbound V × Bool} :
    s.Aside (s.stepPull stream f) := by
  unfold KernelSession.stepPull
  split
  case h_2 => exact .refl
  case h_1 =>
    dsimp only
    split
    case isTrue  => exact Aside.inbound.trans .replenishCredit
    case isFalse => exact .inbound

omit [StructuredClone V] in
theorem Aside.onInbound {f : StreamInbound V → StreamInbound V} :
    s.Aside (s.onInbound streamId f) := by
  unfold KernelSession.onInbound
  split
  · exact .inbound
  · exact .refl

theorem Aside.onOpen : s.Aside (s.onOpen streamId) := by
  rw [KernelSession.onOpen]
  have h {t : KernelSession V} (ht : s.Aside t) :
      s.Aside (t.send [.streamCredit streamId s.limits.maxInFlightBytes]) :=
    ht.trans <| .send fun e he => .inr <| by simp_all [Envelope.reads]
  exact h .inbound

theorem Aside.onOutbound (ev : OutboundEvent V) :
    s.Aside (s.onOutbound streamId (ev.step s.limits)) := by
  unfold KernelSession.onOutbound
  split
  · exact .stepOutbound ev
  · exact .refl

end Aside
end KernelSession

-- What happens to the calls of a session.
inductive CallerEvent (V : Type)
  | call (method : String) (params : V) (deadlineMs : Option Nat) (aborted : Bool)
      (idempotencyKey : Option String) (now : Nat)
  | cancel (id : String)
  | timer (id : String)
  | response (id : String) (result : Except (PluginErrorWire V) V)

-- What happens to the requests of its peer.
inductive ServerEvent (V : Type)
  | request (id method : String) (deadline : Option Nat) (now : Nat)
  | answer (task : Nat) (outcome : Except (Thrown V) V)
  | deadline (task : Nat)
  | cancel (id : String)

namespace Event

variable {V : Type}

def caller : Event V → Option (CallerEvent V)
  | call method params deadlineMs aborted key now =>
    some <| .call method params deadlineMs aborted key now
  | abort id                             => some <| .cancel id
  | timer id                             => some <| .timer id
  | receive (.rpcResponse id result) _   => some <| .response id result
  | _                                    => none

def server : Event V → Option (ServerEvent V)
  | answer task outcome                           => some <| .answer task outcome
  | deadline task                                 => some <| .deadline task
  | receive (.rpcRequest id _ method _ due _) now => some <| .request id method due now
  | receive (.rpcCancel id) _                     => some <| .cancel id
  | _                                             => none

end Event

open KernelErrorCode in
-- What the call is told when its handler comes to that outcome.
def Serving.result {V : Type} (t : Serving) : Except (Thrown V) V → Except (PluginErrorWire V) V
  | .ok value    =>
    if t.aborted then .error { code := operationAborted, retryable := false } else .ok value
  | .error error => .error <| toWireError error

-- Whether structured clone takes it.
def Serving.passes {V : Type} [StructuredClone V] (t : Serving) : Except (Thrown V) V → Bool
  | .ok value                  => t.aborted || clones value
  | .error (.kernelError wire) => wire.clones
  | .error _                   => true

theorem Serving.clones_of_passes {V : Type} [StructuredClone V] {t : Serving}
    {outcome : Except (Thrown V) V} (h : t.passes outcome) :
    (Envelope.rpcResponse t.id (t.result outcome)).clones := by
  cases outcome
  case ok value =>
    rw [result]
    split
    case isTrue     => rfl
    case isFalse ha =>
      have hc : clones value := by simpa [passes, ha] using h
      exact hc
  case error error =>
    cases error
    case kernelError => exact h
    all_goals rfl

namespace KernelSession

variable {V : Type} [StructuredClone V]

def callerStep (s : KernelSession V) : CallerEvent V → KernelSession V
  | .call method params deadlineMs aborted key now =>
    s.call method params deadlineMs aborted key now
  | .cancel id          => s.cancelRequest id
  | .timer id           => s.timer id
  | .response id result => s.onResponse id result

def serverStep (s : KernelSession V) : ServerEvent V → KernelSession V
  | .request id method deadline now => s.serveRequest id method deadline now
  | .answer task outcome            => s.answer task outcome
  | .deadline task                  => s.deadline task
  | .cancel id                      => s.onCancel id

inductive CallTurn (s : KernelSession V) (e : Event V) : KernelSession V → Prop
  | aside (hc : e.caller = none) (hs : e.server = none) (h : s.Aside t) : CallTurn s e t
  | caller (hc : e.caller = some c) (hs : e.server = none) (h : t = s.callerStep c) : CallTurn s e t
  | server (hc : e.caller = none) (hs : e.server = some r) (h : t = s.serverStep r) : CallTurn s e t

variable {s t : KernelSession V} {e : Event V}

section Serving

omit [StructuredClone V] in
theorem SameServing.settle : s.SameServing (s.settle callId outcome) :=
  ⟨.keeps rfl rfl rfl le_rfl rfl, rfl, rfl, rfl⟩

omit [StructuredClone V] in
theorem SameServing.forget : s.SameServing (s.forget callId) :=
  ⟨.keeps rfl rfl rfl le_rfl rfl, rfl, rfl, rfl⟩

theorem SameServing.cancelRequest : s.SameServing (s.cancelRequest callId) := by
  unfold KernelSession.cancelRequest
  split
  case isFalse => exact .refl
  case isTrue  => exact (forget.trans <| .single rfl).trans settle

theorem SameServing.call : s.SameServing (s.call method params deadlineMs aborted key now) := by
  unfold KernelSession.call
  split
  case isTrue  => exact .refl
  case isFalse =>
    have h : s.SameServing { s with
        sequence := s.sequence + 1
        calls    := s.calls ++ [({ id := s.nextId "req", method, params } : Call V)]
        pending  := s.pending ++
          [({ id := s.nextId "req", timer := deadlineMs.isSome } : PendingRequest)]
      } := ⟨.keeps rfl rfl rfl (Nat.le_succ _) rfl, rfl, rfl, rfl⟩
    have hq : (Envelope.rpcRequest (s.nextId "req") s.instanceId method params
      (deadlineMs.map fun ms => now + max 1 ms) key).isResponse = false := rfl
    have h := h.trans <| .single hq
    dsimp only
    split
    case isTrue  => exact h.trans cancelRequest
    case isFalse => exact h

theorem SameServing.callerStep {c : CallerEvent V} : s.SameServing (s.callerStep c) := by
  cases c
  case call   => exact .call
  case cancel => exact .cancelRequest
  case timer  =>
    rw [KernelSession.callerStep, KernelSession.timer]
    split
    · exact forget.trans settle
    · exact .refl
  case response =>
    rw [KernelSession.callerStep, KernelSession.onResponse]
    split
    · exact forget.trans settle
    · exact .refl

theorem SameCalls.serveRequest : s.SameCalls (s.serveRequest callId method due now) := by
  unfold KernelSession.serveRequest
  split
  · exact .single rfl
  · split
    · exact .single rfl
    · exact ⟨.keeps rfl rfl rfl le_rfl rfl, rfl, rfl⟩

theorem SameCalls.answer : s.SameCalls (s.answer task outcome) := by
  unfold KernelSession.answer
  split
  case h_2 => exact .refl
  case h_1 i aborted _ _ =>
    have h {w : KernelSession V} (hw : s.SameCalls w) : s.SameCalls ({ w with
        serving := w.serving.modify task fun t => { t with running := false, deadlineTimer := false }
      }.unregister i) :=
      hw.trans ⟨.keeps rfl rfl rfl le_rfl rfl, rfl, rfl⟩
    exact h <| .single rfl

theorem SameCalls.serverStep {r : ServerEvent V} : s.SameCalls (s.serverStep r) := by
  cases r
  case request => exact .serveRequest
  case answer  => exact .answer
  case deadline =>
    rw [KernelSession.serverStep, KernelSession.deadline]
    split
    · exact ⟨.keeps rfl rfl rfl le_rfl rfl, rfl, rfl⟩
    · exact .refl
  case cancel =>
    rw [KernelSession.serverStep, KernelSession.onCancel]
    split
    · exact ⟨.keeps rfl rfl rfl le_rfl rfl, rfl, rfl⟩
    · exact .refl

end Serving

theorem CallTurn.eq_serverStep (h : s.CallTurn e t) (hr : e.server = some r) : t = s.serverStep r := by
  cases h
  case aside _ hs _   => cases hs.symm.trans hr
  case caller hs _    => cases hs.symm.trans hr
  case server hs heq  =>
    cases hs.symm.trans hr
    exact heq

theorem callTurn_receive (hd : s.disposed = false) {x : Envelope V} :
    s.CallTurn (.receive x now) (s.onMessage x now) := by
  rw [onMessage, if_neg (by simp [hd])]
  cases x
  case rpcRequest id _ method _ due _ => exact .server rfl rfl rfl
  case rpcResponse id result          => exact .caller rfl rfl rfl
  case rpcCancel id                   => exact .server rfl rfl rfl
  case streamOpen i m                 => exact .aside rfl rfl .onOpen
  case streamCredit i n               =>
    cases n
    case zero   => exact .aside rfl rfl .refl
    case succ n => exact .aside rfl rfl <| .onOutbound (.credit (n + 1))
  case streamChunk i q b              => exact .aside rfl rfl .onInbound
  case streamEnd i                    => exact .aside rfl rfl .onInbound
  case streamError i x                => exact .aside rfl rfl .onInbound
  case streamCancel i                 => exact .aside rfl rfl .refl
  case notice                         => exact .aside rfl rfl .refl

-- Every step is one for the calls of this side, one for the requests of the peer, or neither.
theorem callTurn (hd : s.disposed = false) (he : e ≠ .dispose) : s.CallTurn e (s.step e) := by
  cases e
  case call               => exact .caller rfl rfl rfl
  case abort              => exact .caller rfl rfl rfl
  case timer              => exact .caller rfl rfl rfl
  case answer             => exact .server rfl rfl rfl
  case deadline           => exact .server rfl rfl rfl
  case openOutboundStream => exact .aside rfl rfl .openOutboundStream
  case write n c          => exact .aside rfl rfl <| .stepOutbound (.write c)
  case resumeWrite n k    => exact .aside rfl rfl <| .stepOutbound (.resume k)
  case close n            => exact .aside rfl rfl <| .stepOutbound .close
  case fail n x           => exact .aside rfl rfl <| .stepOutbound (.fail _)
  case pull               => exact .aside rfl rfl .stepPull
  case resumePull         => exact .aside rfl rfl .stepPull
  case receive            => exact callTurn_receive hd
  case dispose            => exact absurd rfl he

end KernelSession
end PluginSdk
