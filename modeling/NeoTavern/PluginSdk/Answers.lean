import NeoTavern.PluginSdk.Accounts
import NeoTavern.PluginSdk.Delivery

namespace PluginSdk

open KernelErrorCode

-- What a call should be told of the end of its handler.
def wire {V : Type} : Except (Thrown V) V → Except (PluginErrorWire V) V
  | .ok value    => .ok value
  | .error error => .error <| toWireError error

-- The outcomes that a call may have when the handlers have come to those of `w`.
inductive Outcome {V : Type} (w : List (String × Except (PluginErrorWire V) V)) (refused : Prop)
    (callId : String) : Except (PluginErrorWire V) V → Prop
  | handled (h : (callId, o) ∈ w) : Outcome w refused callId o
  | aborted (h : e.code = operationAborted) : Outcome w refused callId (.error e)
  | deadline (h : e.code = operationDeadline) : Outcome w refused callId (.error e)
  | unsupported (hr : refused) (h : e.code = protocolUnsupported) : Outcome w refused callId (.error e)

theorem Outcome.mono {V : Type} {w w' : List (String × Except (PluginErrorWire V) V)}
    {refused refused' : Prop} {callId : String} {o : Except (PluginErrorWire V) V}
    (h : Outcome w refused callId o) (hw : ∀ r ∈ w, r ∈ w') (hr : refused → refused') :
    Outcome w' refused' callId o := by
  cases h
  case handled h       => exact .handled <| hw _ h
  case aborted h       => exact .aborted h
  case deadline h      => exact .deadline h
  case unsupported r h => exact .unsupported (hr r) h

-- Whether a call can be settled though its peer perhaps never hears of it.
def Event.asks {V : Type} [StructuredClone V] : Event V → Bool
  | call _ params deadlineMs aborted _ _ => clones params || deadlineMs.isSome || aborted
  | _                                    => true

def Event.answers {V : Type} : Event V → Option (Nat × Except (Thrown V) V)
  | answer task o => some (task, o)
  | _             => none

def Act.isLocal {V : Type} : Act V → Bool
  | eventA e   => e.isLocal
  | eventB e   => e.isLocal
  | deliverB _ => true
  | deliverA _ => true

def Act.swap {V : Type} : Act V → Act V
  | eventA e     => .eventB e
  | eventB e     => .eventA e
  | deliverB now => .deliverA now
  | deliverA now => .deliverB now

namespace Link

variable {V : Type} [StructuredClone V] {l : Link V}

-- What the handlers of the second session come to, each with the identifier of its request.
def outcome (l : Link V) : Act V → List (String × Except (PluginErrorWire V) V)
  | .eventB (.answer task o) =>
    ((l.b.serving[task]?).filter (·.running)).toList.map fun t => (t.id, wire o)
  | _ => []

def outcomes (l : Link V) : List (Act V) → List (String × Except (PluginErrorWire V) V)
  | []          => []
  | act :: acts => l.outcome act ++ (l.step act).outcomes acts

def swap (l : Link V) : Link V :=
  { a := l.b, b := l.a, toB := l.toA, toA := l.toB }

-- No call of the first session is lost in this step: its request or its response can be cloned, or
-- there is something else that settles it.
def Keeps (l : Link V) : Act V → Prop
  | .eventA e => e.isLocal ∧ e.asks
  | .eventB e => e.isLocal ∧ ∀ p ∈ e.answers, ∀ t ∈ l.b.serving[p.fst]?, t.running →
    t.passes p.snd ∨ ∀ r ∈ l.a.pending, r.id = t.id → r.timer
  | .deliverB _ => True
  | .deliverA _ => True

instance {act : Act V} : Decidable (l.Keeps act) :=
  match act with
  | .eventA _                 => instDecidableAnd
  | .eventB _                 => instDecidableAnd
  | .deliverB _ | .deliverA _ => .isTrue trivial

-- Neither session loses a call.
def KeepsRun (l : Link V) : List (Act V) → Prop
  | []          => True
  | act :: acts => (l.Keeps act ∧ l.swap.Keeps act.swap) ∧ (l.step act).KeepsRun acts

instance {acts : List (Act V)} : Decidable (l.KeepsRun acts) :=
  decidable l acts
where
  decidable (l : Link V) : (acts : List (Act V)) → Decidable (l.KeepsRun acts)
    | []          => .isTrue trivial
    | act :: acts => @instDecidableAnd _ _ _ (decidable (l.step act) acts)

-- Nothing is in flight, no handler is running and no timer of a call is armed.
structure Idle (l : Link V) : Prop where
  toB      : l.toB = l.a.port.length
  toA      : l.toA = l.b.port.length
  servingA : ∀ t ∈ l.a.serving, t.running = false
  servingB : ∀ t ∈ l.b.serving, t.running = false
  timersA  : ∀ p ∈ l.a.pending, p.timer = false
  timersB  : ∀ p ∈ l.b.pending, p.timer = false

-- Every call of the first session has at most one outcome, and exactly one when nothing is left to
-- happen. Then both tables are empty.
structure Answered (w : List (String × Except (PluginErrorWire V) V)) (l : Link V) : Prop where
  once    : ∀ c ∈ l.a.calls, c.settled.length ≤ 1 ∧
    ∀ o ∈ c.settled, Outcome w (c.method ∉ l.b.handlers) c.id o
  settled : l.Idle → (∀ c ∈ l.a.calls, c.settled.length = 1) ∧ l.a.pending = [] ∧ l.b.remote = []

def Requested (l : Link V) (callId method : String) : Prop :=
  ∃ inst params d k, .rpcRequest callId inst method params d k ∈ l.a.port

-- What the port of the second session can hold, apart from what its handlers have come to.
abbrev Allowed (l : Link V) (w : List (String × Except (PluginErrorWire V) V)) (callId : String) :
    Except (PluginErrorWire V) V → Prop :=
  Outcome w (∃ method, l.Requested callId method ∧ method ∉ l.b.handlers) callId

-- A call will be settled: its request is in flight, its handler runs, or its response is in flight.
inductive Awaited (l : Link V) (callId : String) : Prop
  | request (h : ∃ inst method params d k,
      .rpcRequest callId inst method params d k ∈ l.a.port.drop l.toB)
  | handler (h : l.b.Runs callId)
  | response (h : ∃ o, .rpcResponse callId o ∈ l.b.port.drop l.toA)

-- The invariant of the calls of the first session.
structure Answering (w : List (String × Except (PluginErrorWire V) V)) (l : Link V) : Prop where
  isOpen   : l.a.disposed = false ∧ l.b.disposed = false
  sentB    : l.toB ≤ l.a.port.length
  sentA    : l.toA ≤ l.b.port.length
  accounts : l.a.Accounts (l.Allowed w)
  serves   : l.b.Serves (l.Allowed w)
  waiting  : ∀ p ∈ l.a.pending, p.timer ∨ l.Awaited p.id

section Steps

open KernelSession

variable {w w' : List (String × Except (PluginErrorWire V) V)} {e : Event V} {n : Nat}

-- The first session makes a step. It may take an envelope out of its port.
theorem Answering.stepA (h : l.Answering w) (he : e ≠ .dispose) (hn : n ≤ l.b.port.length)
    (hc : ∀ method params deadlineMs key now,
      e.caller = some (.call method params deadlineMs false key now) →
        clones params ∨ deadlineMs.isSome)
    (hr : ∀ i o, e.caller = some (.response i o) → l.Allowed w i o)
    (hdrop : ∀ i o, .rpcResponse i o ∈ l.b.port.drop l.toA → .rpcResponse i o ∈ l.b.port.drop n ∨
      ∃ r, e.caller = some (.response i r)) :
    ({ l with a := l.a.step e, toA := n } : Link V).Answering w := by
  have ⟨hd, _, ⟨out, hport⟩, _⟩ := step_open h.isOpen.left he
  have hallowed i o (ho : l.Allowed w i o) :
      ({ l with a := l.a.step e, toA := n } : Link V).Allowed w i o := by
    refine ho.mono (fun _ => id) ?_
    rintro ⟨m, ⟨inst, v, d, k, hm⟩, hs⟩
    exact ⟨m, ⟨inst, v, d, k, hport ▸ List.mem_append_left _ hm⟩, hs⟩
  have hawaited i (hi : l.Awaited i) (hnot : ∀ r, e.caller ≠ some (.response i r)) :
      ({ l with a := l.a.step e, toA := n } : Link V).Awaited i := by
    cases hi
    case request hm  =>
      have ⟨inst, method, params, d, k, hm⟩ := hm
      exact .request ⟨inst, method, params, d, k, hport ▸ mem_drop_append hm⟩
    case handler hm  => exact .handler hm
    case response hm =>
      have ⟨o, hm⟩ := hm
      rcases hdrop _ _ hm with hm | ⟨r, hr⟩
      · exact .response ⟨o, hm⟩
      · exact absurd hr <| hnot r
  have ht := callTurn h.isOpen.left he
  constructor
  case isOpen => exact ⟨hd, h.isOpen.right⟩
  case sentB  =>
    have := congrArg List.length hport
    rw [List.length_append] at this
    exact this ▸ Nat.le_add_right_of_le h.sentB
  case sentA    => exact hn
  case serves   => exact h.serves.mono hallowed
  case accounts =>
    exact (h.accounts.turn ht (fun _ => .aborted rfl) (fun _ _ => .deadline rfl) hr).mono hallowed
  case waiting =>
    have hsame (hs : l.a.SameCalls (l.a.step e)) (hnone : e.caller = none) :
        ∀ p ∈ (l.a.step e).pending, p.timer ∨
          ({ l with a := l.a.step e, toA := n } : Link V).Awaited p.id := by
      intro p hp
      rw [hs.pending] at hp
      exact (h.waiting p hp).imp_right fun ha => hawaited _ ha fun r => by simp [hnone]
    cases ht
    case aside hnone _ ha     => exact hsame ha.calls hnone
    case server hnone _ heq  => exact hsame (heq ▸ .serverStep) hnone
    case caller c hcall _ heq =>
      intro p hp
      have hp : p ∈ (l.a.callerStep c).pending := heq ▸ hp
      rcases mem_pending_callerStep h.isOpen.left hp with ⟨hp, hne⟩ | hnew
      · refine (h.waiting p hp).imp_right fun ha => hawaited _ ha fun r hr => ?_
        rw [hcall] at hr
        exact hne r <| Option.some.inj hr
      · obtain ⟨method, params, deadlineMs, key, now, rfl, ht, hreq⟩ := hnew
        rcases hc _ _ _ _ _ hcall with hv | hs
        · have ⟨inst, d, k, hm⟩ := hreq hv
          have hm := heq ▸ hm
          exact .inr <| .request ⟨inst, method, params, d, k,
            (List.drop_sublist_drop_left _ h.sentB).subset hm⟩
        · exact .inl <| ht.trans hs

theorem Answering.stepB (h : l.Answering w) (he : e ≠ .dispose) (hn : n ≤ l.a.port.length)
    (hw : ∀ r ∈ w, r ∈ w')
    (hreq : ∀ i method due now, e.server = some (.request i method due now) → l.Requested i method)
    (hans : ∀ task o t, e.server = some (.answer task o) → l.b.serving[task]? = some t → t.running →
      (t.id, wire o) ∈ w' ∧ (t.passes o ∨ ∀ p ∈ l.a.pending, p.id = t.id → p.timer))
    (hdrop : ∀ i inst method params d k, .rpcRequest i inst method params d k ∈ l.a.port.drop l.toB →
      .rpcRequest i inst method params d k ∈ l.a.port.drop n ∨
        ∃ due now, e.server = some (.request i method due now)) :
    ({ l with b := l.b.step e, toB := n } : Link V).Answering w' := by
  obtain ⟨hd, _, ⟨out, hport⟩, _⟩ := step_open h.isOpen.right he
  have ht := callTurn h.isOpen.right he
  have hhandlers : (l.b.step e).handlers = l.b.handlers := by
    generalize l.b.step e = t at ht
    cases ht
    case aside _ _ ha        => exact ha.serving.handlers
    case caller c _ _ heq    => exact heq ▸ (SameServing.callerStep (c := c)).handlers
    case server r _ _ heq    => exact heq ▸ handlers_serverStep
  have hallowed i o (ho : l.Allowed w i o) :
      ({ l with b := l.b.step e, toB := n } : Link V).Allowed w' i o := by
    refine ho.mono hw ?_
    rintro ⟨m, hm, hs⟩
    exact ⟨m, hm, by rwa [hhandlers]⟩
  have hresponse i (hi : ∃ o, .rpcResponse i o ∈ (l.b.step e).port.drop l.b.port.length) :
      ({ l with b := l.b.step e, toB := n } : Link V).Awaited i := by
    obtain ⟨o, ho⟩ := hi
    exact .response ⟨o, (List.drop_sublist_drop_left _ h.sentA).subset ho⟩
  constructor
  case isOpen => exact ⟨h.isOpen.left, hd⟩
  case sentA  =>
    have := congrArg List.length hport
    rw [List.length_append] at this
    exact this ▸ Nat.le_add_right_of_le h.sentA
  case sentB    => exact hn
  case accounts => exact h.accounts.mono hallowed
  case serves   =>
    apply (h.serves.mono hallowed).turn ht
    case hreq =>
      intro i m due now hserver
      refine ⟨.deadline rfl, fun hm => .unsupported ⟨m, hreq i m due now hserver, ?_⟩ rfl⟩
      rwa [hhandlers]
    case hans =>
      intro task o t hserver ht hrun
      obtain ⟨hmem, _⟩ := hans task o t hserver ht hrun
      cases o
      case error => exact .handled hmem
      case ok v  =>
        rw [Serving.result]
        split
        · exact .aborted rfl
        · exact .handled hmem
  case waiting =>
    intro p hp
    rcases h.waiting p hp with htimer | ha
    · exact .inl htimer
    · cases ha
      case response hm =>
        obtain ⟨o, hm⟩ := hm
        exact .inr <| .response ⟨o, hport ▸ mem_drop_append hm⟩
      case request hm =>
        obtain ⟨inst, method, params, d, k, hm⟩ := hm
        rcases hdrop _ _ _ _ _ _ hm with hm | ⟨due, now, hserver⟩
        · exact .inr <| .request ⟨inst, method, params, d, k, hm⟩
        · have heq := ht.eq_serverStep hserver
          have htaken : (l.b.step e).Runs p.id ∨
              ∃ o, .rpcResponse p.id o ∈ (l.b.step e).port.drop l.b.port.length := by
            rw [heq]
            exact runs_serveRequest h.isOpen.right
          exact .inr <| htaken.elim (fun hrun => .handler hrun) fun hres => hresponse _ hres
      case handler hrun =>
        cases ht
        case aside _ _ ha     => exact .inr <| .handler <| hrun.same ha.serving.serving
        case caller c _ _ heq =>
          refine .inr <| .handler <| hrun.same ?_
          have : (l.b.callerStep c).serving = l.b.serving := SameServing.callerStep.serving
          exact heq ▸ this
        case server r _ hserver heq =>
          have hstep := hrun.serverStep (r := r) h.isOpen.right
          rw [← heq] at hstep
          rcases hstep with hrun | ⟨task, o, t, rfl, ht, hrun, hid, hres⟩
          · exact .inr <| .handler hrun
          · obtain ⟨_, hor⟩ := hans _ _ _ hserver ht hrun
            rcases hor with hpass | htimer
            · exact .inr <| hresponse _ <| hres hpass
            · exact .inl <| htimer p hp hid.symm

omit [StructuredClone V] in
theorem isLocal_caller (he : e.isLocal) : e.caller ≠ some (.response i o) := by
  cases e
  case receive => cases he
  all_goals nofun

omit [StructuredClone V] in
theorem isLocal_server (he : e.isLocal) : e.server ≠ some (.request i m due now) := by
  cases e
  case receive => cases he
  all_goals nofun

omit [StructuredClone V] in
theorem eq_call_of_caller (h : e.caller = some (.call method params deadlineMs aborted key now)) :
    e = .call method params deadlineMs aborted key now := by
  cases e
  case call        => cases h; rfl
  case receive x _ => cases x <;> cases h
  all_goals cases h

omit [StructuredClone V] in
theorem eq_answer_of_server (h : e.server = some (.answer task o)) : e = .answer task o := by
  cases e
  case answer      => cases h; rfl
  case receive x _ => cases x <;> cases h
  all_goals cases h

-- An envelope that comes out of a port is the only one that is no longer in flight.
omit [StructuredClone V] in
theorem mem_drop_succ {port : List (Envelope V)} {x y : Envelope V} (hx : port[n]? = some x)
    (hy : y ∈ port.drop n) : y ∈ port.drop (n + 1) ∨ y = x := by
  have ⟨hn, hget⟩ := List.getElem?_eq_some_iff.mp hx
  rw [← List.getElem_cons_drop hn, hget] at hy
  exact (List.mem_cons.mp hy).symm

theorem Answering.step {act : Act V} (h : l.Answering w) (hk : l.Keeps act) :
    (l.step act).Answering (w ++ l.outcome act) := by
  have hmem r (hr : r ∈ w) : r ∈ w ++ l.outcome act := List.mem_append_left _ hr
  cases act
  case eventA e =>
    obtain ⟨hlocal, hkeep⟩ := hk
    have hne : e ≠ .dispose := by
      rintro rfl
      cases hlocal
    have hout : l.outcome (.eventA e) = [] := rfl
    rw [hout, List.append_nil]
    refine h.stepA hne h.sentA ?_ ?_ fun i o hm => .inl hm
    · intro method params deadlineMs key now hc
      rw [eq_call_of_caller hc] at hkeep
      simpa [Event.asks] using hkeep
    · intro i o hc
      exact absurd hc <| isLocal_caller hlocal
  case deliverA now =>
    have hout : l.outcome (.deliverA now) = [] := rfl
    rw [hout, List.append_nil, Link.step]
    split
    case h_2 => exact h
    case h_1 x hx =>
      obtain ⟨hlt, _⟩ := List.getElem?_eq_some_iff.mp hx
      refine h.stepA (by simp) hlt ?_ ?_ fun i o hm => ?_
      · intro method params deadlineMs key now' hc
        cases x <;> cases hc
      · intro i o hc
        cases x <;> cases hc
        exact h.serves.responses i o <| List.mem_of_getElem? hx
      · rcases mem_drop_succ hx hm with hm | rfl
        · exact .inl hm
        · exact .inr ⟨o, rfl⟩
  case eventB e =>
    obtain ⟨hlocal, hkeep⟩ := hk
    have hne : e ≠ .dispose := by
      rintro rfl
      cases hlocal
    refine h.stepB hne h.sentB hmem ?_ ?_ fun _ _ _ _ _ _ hm => .inl hm
    · intro i method due now hs
      exact absurd hs <| isLocal_server hlocal
    · intro task o t hs ht hrun
      have he := eq_answer_of_server hs
      refine ⟨List.mem_append_right _ ?_, hkeep (task, o) (he ▸ rfl) t ht hrun⟩
      simp [outcome, he, ht, hrun]
  case deliverB now =>
    have hout : l.outcome (.deliverB now) = [] := rfl
    rw [hout, List.append_nil, Link.step]
    split
    case h_2 => exact h
    case h_1 x hx =>
      obtain ⟨hlt, _⟩ := List.getElem?_eq_some_iff.mp hx
      refine h.stepB (by simp) hlt (fun _ => id) ?_ ?_ fun i inst m v d k hm => ?_
      · intro i method due now' hs
        cases x <;> cases hs
        exact ⟨_, _, _, _, List.mem_of_getElem? hx⟩
      · intro task o t hs
        cases x <;> cases hs
      · rcases mem_drop_succ hx hm with hm | rfl
        · exact .inl hm
        · exact .inr ⟨d, now, rfl⟩

theorem Answering.run {acts : List (Act V)} (h : l.Answering w) (hk : l.KeepsRun acts) :
    (l.run acts).Answering (w ++ l.outcomes acts) := by
  induction acts generalizing l w
  case nil =>
    rw [outcomes, List.append_nil]
    exact h
  case cons act acts ih =>
    have := ih (h.step hk.left.left) hk.right
    rw [outcomes, ← List.append_assoc]
    exact this

omit [StructuredClone V] in
theorem Answering.answered (h : l.Answering w) : l.Answered w := by
  constructor
  case once =>
    intro c hc
    rcases h.accounts.calls c hc with ⟨hnil, _⟩ | ⟨o, hset, _, ho⟩
    · rw [hnil]
      exact ⟨Nat.zero_le _, by simp⟩
    · rw [hset]
      refine ⟨Nat.le_refl _, fun o' ho' => ?_⟩
      rw [List.mem_singleton.mp ho']
      refine ho.mono (fun _ => id) ?_
      rintro ⟨m, ⟨inst, v, d, k, hm⟩, hs⟩
      rwa [(h.accounts.requests _ _ _ _ _ _ hm).right c hc rfl]
  case settled =>
    intro hi
    have hpending : l.a.pending = [] := by
      apply List.eq_nil_iff_forall_not_mem.mpr
      intro p hp
      rcases h.waiting p hp with ht | ha
      · rw [hi.timersA p hp] at ht
        cases ht
      · cases ha
        case request hm =>
          obtain ⟨_, _, _, _, _, hm⟩ := hm
          rw [hi.toB, List.drop_length] at hm
          cases hm
        case handler hrun =>
          obtain ⟨t, ht, hrun, _⟩ := hrun
          rw [hi.servingB t ht] at hrun
          cases hrun
        case response hm =>
          obtain ⟨_, hm⟩ := hm
          rw [hi.toA, List.drop_length] at hm
          cases hm
    refine ⟨fun c hc => ?_, hpending, ?_⟩
    · rcases h.accounts.calls c hc with ⟨_, hp⟩ | ⟨o, hset, _⟩
      · rw [isPending, hpending] at hp
        cases hp
      · rw [hset]
        rfl
    · apply List.eq_nil_iff_forall_not_mem.mpr
      intro r hr
      obtain ⟨t, ht, hrun, _⟩ := h.serves.remote r hr
      rw [hi.servingB t <| List.mem_of_getElem? ht] at hrun
      cases hrun

end Steps

section Swap

theorem step_swap {act : Act V} : (l.step act).swap = l.swap.step act.swap := by
  cases act
  case eventA     => rfl
  case eventB     => rfl
  case deliverB _ =>
    simp only [step, Act.swap, swap]
    split <;> simp_all
  case deliverA _ =>
    simp only [step, Act.swap, swap]
    split <;> simp_all

theorem run_swap {acts : List (Act V)} : (l.run acts).swap = l.swap.run (acts.map .swap) := by
  induction acts generalizing l
  case nil => rfl
  case cons act acts ih =>
    have := ih (l := l.step act)
    rw [step_swap] at this
    exact this

theorem KeepsRun.swap {acts : List (Act V)} (h : l.KeepsRun acts) :
    l.swap.KeepsRun (acts.map .swap) := by
  induction acts generalizing l
  case nil => exact trivial
  case cons act acts ih =>
    have hself : act.swap.swap = act := by cases act <;> rfl
    have := ih h.right
    rw [step_swap] at this
    exact ⟨⟨h.left.right, hself.symm ▸ h.left.left⟩, this⟩

omit [StructuredClone V] in
theorem Fresh.swap (h : l.Fresh la lb) : l.swap.Fresh lb la :=
  ⟨h.b, h.a, h.toA, h.toB⟩

end Swap

omit [StructuredClone V] in
theorem Fresh.answering (h : l.Fresh la lb) : l.Answering [] := by
  obtain ⟨roleA, instanceA, handlersA, ha⟩ := h.a
  obtain ⟨roleB, instanceB, handlersB, hb⟩ := h.b
  constructor
  case isOpen   => simp [ha, hb, KernelSession.create]
  case sentB    => exact h.toB ▸ Nat.zero_le _
  case sentA    => exact h.toA ▸ Nat.zero_le _
  case accounts => rw [ha]; exact ⟨by rintro _ ⟨⟩, by rintro _ ⟨⟩, by rintro _ _ _ _ _ _ ⟨⟩⟩
  case serves   => rw [hb]; exact ⟨by rintro _ _ ⟨⟩, by rintro _ ⟨⟩⟩
  case waiting  => rw [ha]; rintro _ ⟨⟩

theorem answers_every_call {acts : List (Act V)} (hl : l.Fresh la lb) (hk : l.KeepsRun acts) :
    (l.run acts).Answered (l.outcomes acts) ∧
      (l.run acts).swap.Answered (l.swap.outcomes <| acts.map .swap) := by
  constructor
  case left  => exact (hl.answering.run hk).answered
  case right =>
    have ha := (hl.swap.answering.run hk.swap).answered
    rw [← run_swap] at ha
    exact ha

end Link

namespace Sample

def caller : Link Value where
  a := .create "plugin" "p1" session.limits []
  b := .create "host" "p1" session.limits ["model.generate"]

theorem caller_fresh : caller.Fresh session.limits session.limits :=
  ⟨⟨_, _, _, rfl⟩, ⟨_, _, _, rfl⟩, rfl, rfl⟩

-- A call without a deadline, and its handler.
def exchange (o : Except (Thrown Value) Value) : List (Act Value) := [
  .eventA (.call "model.generate" (.data 1) none false none 0),
  .deliverB 0, .eventB (.answer 0 o), .deliverA 0
]

end Sample

namespace Link

open Sample

theorem answers_every_call_exchange :
    (caller.run <| exchange <| .ok <| .data 7).Answered [("plugin:req:1", .ok <| .data 7)] ∧
      (caller.run <| exchange <| .ok <| .data 7).swap.Answered [] :=
  @answers_every_call _ _ _ _ _ (exchange <| .ok <| .data 7) caller_fresh (by decide +kernel)

-- The handler resolves with a function, and its caller waits forever.
theorem call_stays_pending : ¬∀ (la lb : StreamLimitsConfig) (l : Link Value) (acts : List (Act Value)),
    l.Fresh la lb → (∀ act ∈ acts, act.isLocal) → (l.run acts).Idle →
    ∀ c ∈ (l.run acts).a.calls, clones c.params → c.settled.length = 1 := by
  intro h
  have hidle : (caller.run <| exchange <| .ok .function).Idle := by
    constructor <;> decide +kernel
  have := h _ _ caller (exchange <| .ok .function) caller_fresh (by decide +kernel) hidle
  revert this
  decide +kernel

end Link
end PluginSdk
