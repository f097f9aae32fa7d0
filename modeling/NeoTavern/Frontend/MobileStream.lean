import Mathlib

-- A stream over the bridge of the mobile shell: one open, deliveries of the host, and a consumer.
namespace Frontend.MobileStream

-- `Json` is what a payload is, and a number; `Product` is an error of the product.
variable {Json Product : Type}

structure StreamEvent (Json : Type) where
  streamId : String
  sequence : Json
  type     : String
  payload  : Json

inductive StreamError (Product : Type)
  | transport (message : String)
  | product (error : Product)

-- What a payload is read as. `none` stands for an envelope or an error that is malformed.
inductive Payload (Json Product : Type)
  | notJson
  | malformed
  | event (event : Option (StreamEvent Json))
  | terminal
  | error (error : Option Product)
  | unknown (kind : String)

-- How a call of `next` settles.
inductive Result (Json Product : Type)
  | event (event : StreamEvent Json)
  | done
  | error (error : StreamError Product)

inductive Phase
  | opening
  | calling
  | settled
  deriving DecidableEq

-- The calls of `next` have numbers. `registered` is the entry in the table of callbacks.
structure Stream (Json Product : Type) where
  queue      : List (StreamEvent Json) := []
  waiters    : List ℕ := []
  ended      : Bool := false
  aborted    : Bool := false
  streamId   : Option String := none
  callbackId : Bool := false
  openError  : Option (StreamError Product) := none
  registered : Bool := false
  phase      : Phase := .opening
  calls      : ℕ := 0
  results    : List (ℕ × Result Json Product) := []
  cancelled  : List String := []

namespace Stream

section Code

variable (s : Stream Json Product)

-- Where the stream has ended.
def outcome : Result Json Product :=
  s.openError.elim .done .error

def serve : List ℕ → List (StreamEvent Json) → List (ℕ × Result Json Product) × List ℕ × List (StreamEvent Json)
  | waiter :: waiters, event :: queue =>
    let (results, rest) := serve waiters queue
    ((waiter, .event event) :: results, rest)
  | waiters, queue                    => ([], waiters, queue)

def settleWaiters : Stream Json Product :=
  let (results, waiters, queue) := serve s.waiters s.queue
  let s := { s with results := s.results ++ results, waiters, queue }
  if s.ended then
    { s with results := s.results ++ s.waiters.map (·, s.outcome), waiters := [] }
  else
    s

def failWith (message : String) : Stream Json Product :=
  { s with openError := some (.transport message), ended := true }

def unregister : Stream Json Product :=
  if s.callbackId then { s with registered := false } else s

def cancel : Stream Json Product :=
  { s with cancelled := s.cancelled ++ s.streamId.toList }

def deliver (payload : Payload Json Product) : Stream Json Product :=
  match payload with
  | .notJson            => (s.failWith "mobile bridge stream payload was not valid JSON").settleWaiters
  | .malformed          => (s.failWith "mobile bridge stream payload was malformed").settleWaiters
  | .event none         => (s.failWith "mobile bridge stream event envelope was malformed").settleWaiters
  | .event (some event) =>
    let s := { s with streamId := s.streamId.or (some event.streamId) }
    let s := if s.aborted then s.cancel else s
    { s with queue := s.queue ++ [event] }.settleWaiters
  | .terminal           => { s with ended := true }.unregister.settleWaiters
  | .error none         => (s.failWith "mobile bridge stream error payload was malformed").unregister.settleWaiters
  | .error (some error) => { s with openError := some (.product error), ended := true }.unregister.settleWaiters
  | .unknown kind       => (s.failWith s!"mobile bridge stream delivered unknown payload kind: {kind}").settleWaiters

def reject (message : String) : Stream Json Product :=
  (s.failWith message).unregister.settleWaiters

-- The handshake or what comes before the entry is registered fails.
def failOpen (error : StreamError Product) : Stream Json Product :=
  { s with openError := some error, ended := true, phase := .settled }.settleWaiters

def register : Stream Json Product :=
  { s with callbackId := true, registered := true, phase := .calling }

def called : Stream Json Product :=
  { s with phase := .settled }.settleWaiters

def callThrew (error : StreamError Product) : Stream Json Product :=
  { s.unregister with openError := some error, ended := true, phase := .settled }.settleWaiters

def next : Stream Json Product :=
  let call := s.calls
  let s := { s with calls := call + 1 }
  match s.queue with
  | event :: queue =>
    { s with queue, streamId := s.streamId.or (some event.streamId), results := s.results ++ [(call, .event event)] }
  | []             =>
    if s.ended then
      { s with results := s.results ++ [(call, s.outcome)] }
    else
      { s with waiters := s.waiters ++ [call] }

-- `return`, which an abort calls too.
def doReturn : Stream Json Product :=
  let s := { s with aborted := true }.cancel.unregister
  { s with results := s.results ++ s.waiters.map (·, .done), waiters := [] }

end Code

end Stream

-- A rejection comes with the message that is read from it.
inductive Step (Json Product : Type)
  | failOpen (error : StreamError Product)
  | register
  | called
  | callThrew (error : StreamError Product)
  | deliver (payload : Payload Json Product)
  | reject (message : String)
  | next
  | doReturn

-- The open goes its way, the host delivers once it has been called, and while it is called nothing else happens.
def step (s : Stream Json Product) : Step Json Product → Option (Stream Json Product)
  | .failOpen error  => if s.phase = .opening then some (s.failOpen error) else none
  | .register        => if s.phase = .opening then some s.register else none
  | .called          => if s.phase = .calling then some s.called else none
  | .callThrew error => if s.phase = .calling then some (s.callThrew error) else none
  | .deliver payload =>
    if s.phase = .opening then none else some (if s.registered then s.deliver payload else s)
  | .reject message  =>
    if s.phase = .opening then none else some (if s.registered then s.reject message else s)
  | .next            => if s.phase = .calling then none else some s.next
  | .doReturn        => if s.phase = .calling then none else some s.doReturn

def run (trace : List (Step Json Product)) : Option (Stream Json Product) :=
  trace.foldlM step {}

section Heard

-- How a payload ends the stream, unless it is an event.
def Payload.ending : Payload Json Product → Result Json Product
  | .notJson            => .error <| .transport "mobile bridge stream payload was not valid JSON"
  | .malformed          => .error <| .transport "mobile bridge stream payload was malformed"
  | .event _            => .error <| .transport "mobile bridge stream event envelope was malformed"
  | .terminal           => .done
  | .error none         => .error <| .transport "mobile bridge stream error payload was malformed"
  | .error (some e)     => .error <| .product e
  | .unknown kind       => .error <| .transport s!"mobile bridge stream delivered unknown payload kind: {kind}"

abbrev Heard (Json Product : Type) :=
  List (StreamEvent Json) × Option (Result Json Product)

-- What a consumer is to hear: the events before the first end, and that end.
def hear (heard : Heard Json Product) (step : Step Json Product) : Heard Json Product :=
  match heard.2, step with
  | none, .deliver (.event (some event)) => (heard.1 ++ [event], none)
  | none, .deliver payload               => (heard.1, some payload.ending)
  | none, .reject message                => (heard.1, some (.error (.transport message)))
  | none, .failOpen error                => (heard.1, some (.error error))
  | none, .callThrew error               => (heard.1, some (.error error))
  | _, _                                 => heard

def heard (trace : List (Step Json Product)) : Heard Json Product :=
  trace.foldl hear ([], none)

variable {trace : List (Step Json Product)} {st : Step Json Product}

theorem heard_concat : heard (trace ++ [st]) = hear (heard trace) st := by
  simp [heard]

theorem hear_over {h : Heard Json Product} {r : Result Json Product} (hr : h.2 = some r) : hear h st = h := by
  simp [hear, hr]

end Heard

section Results

def Result.event? : Result Json Product → Option (StreamEvent Json)
  | .event e => some e
  | _        => none

def eventsOf (results : List (ℕ × Result Json Product)) : List (StreamEvent Json) :=
  results.filterMap (·.2.event?)

@[simp]
theorem eventsOf_append (rs rs' : List (ℕ × Result Json Product)) : eventsOf (rs ++ rs') = eventsOf rs ++ eventsOf rs' := by
  simp [eventsOf]

-- The results are events, ends of calls that wait when the consumer leaves, and the end after all events.
inductive Settled (heard : Heard Json Product) (left : Prop) : List (ℕ × Result Json Product) → Prop
  | nil                                   : Settled heard left []
  | event {rs call event} (h : Settled heard left rs) : Settled heard left (rs ++ [(call, .event event)])
  | left {rs call} (h : Settled heard left rs) (hl : left) : Settled heard left (rs ++ [(call, .done)])
  | shut {rs call r} (h : Settled heard left rs) (hr : heard.2 = some r) (he : eventsOf rs = heard.1) :
    Settled heard left (rs ++ [(call, r)])

variable {h h' : Heard Json Product} {left left' : Prop} {rs : List (ℕ × Result Json Product)}

theorem Settled.mono (hs : Settled h left rs) (hl : left → left') (hh : ∀ r, h.2 = some r → h' = h) :
    Settled h' left' rs := by
  induction hs
  case nil             => exact .nil
  case event ih        => exact ih.event
  case left hl' ih     => exact ih.left (hl hl')
  case shut hr he ih   =>
    obtain rfl := hh _ hr
    exact ih.shut hr he

theorem Settled.lefts (hs : Settled h left rs) (hl : left) (waiters : List ℕ) :
    Settled h left (rs ++ waiters.map (·, .done)) := by
  induction waiters generalizing rs
  case nil                  => simpa using hs
  case cons call waiters hi => simpa using hi (hs.left hl)

theorem Settled.overs {r : Result Json Product} (hs : Settled h left rs) (hr : h.2 = some r) (he : eventsOf rs = h.1)
    (hn : r.event? = none) (waiters : List ℕ) : Settled h left (rs ++ waiters.map (·, r)) := by
  induction waiters generalizing rs
  case nil                  => simpa using hs
  case cons call waiters hi =>
    have he' : eventsOf (rs ++ [(call, r)]) = h.1 := by simpa [eventsOf, hn] using he
    simpa using hi (hs.shut hr he) he'

structure Serves (waiters : List ℕ) (queue : List (StreamEvent Json))
    (served : List (ℕ × Result Json Product) × List ℕ × List (StreamEvent Json)) : Prop where
  calls   : served.1.map Prod.fst ++ served.2.1 = waiters
  events  : eventsOf served.1 ++ served.2.2 = queue
  settled : ∀ h left rs, Settled h left rs → Settled h left (rs ++ served.1)
  drained : served.2.1 = [] ∨ served.2.2 = []

theorem serve_serves (waiters : List ℕ) (queue : List (StreamEvent Json)) :
    Serves waiters queue (Stream.serve waiters queue : List (ℕ × Result Json Product) × _ × _) := by
  fun_induction Stream.serve waiters queue
  case case1 waiter waiters event queue results rest hserve ih =>
    rw [hserve] at ih
    constructor
    case calls   => simpa using ih.calls
    case events  => simpa [eventsOf, Result.event?] using ih.events
    case settled =>
      intro h left rs hs
      simpa using ih.settled h left _ hs.event
    case drained => exact ih.drained
  case case2 waiters queue hno =>
    constructor
    case calls   => rfl
    case events  => rfl
    case settled => exact fun h left rs hs => by simpa using hs
    case drained =>
      cases waiters
      case nil  => exact .inl rfl
      case cons =>
        cases queue
        case nil  => exact .inr rfl
        case cons => exact (hno _ _ _ _ rfl rfl).elim

end Results

section Invariant

-- What holds before the calls that wait are settled.
structure Core (trace : List (Step Json Product)) (s : Stream Json Product) : Prop where
  numbered  : s.results.map Prod.fst ++ s.waiters = List.range s.calls
  aborted   : s.aborted ↔ .doReturn ∈ trace
  opening   : s.phase = .opening →
    s.registered = false ∧ s.ended = false ∧ s.openError = none ∧ heard trace = ([], none)
  calling   : s.phase = .calling → s.registered ∨ s.ended
  live      : s.registered → (heard trace).2 = none ∧ s.ended = false ∧ s.callbackId ∧ s.openError = none
  shut      : s.ended → s.registered = false ∧ (heard trace).2 = some s.outcome
  gone      : s.phase ≠ .opening → s.registered = false → s.ended = false → s.aborted ∧ s.streamId.isSome
  taken     : eventsOf s.results ++ s.queue <+: (heard trace).1
  full      : s.registered ∨ s.ended ∨ s.phase = .opening → eventsOf s.results ++ s.queue = (heard trace).1
  streamId  : s.streamId = (heard trace).1.head?.map StreamEvent.streamId
  cancelled : s.aborted → ∀ id ∈ s.streamId, id ∈ s.cancelled
  settled   : Settled (heard trace) (.doReturn ∈ trace) s.results

structure Inv (trace : List (Step Json Product)) (s : Stream Json Product) : Prop extends Core trace s where
  waiting : s.waiters ≠ [] → s.queue = [] ∧ s.ended = false

variable {trace : List (Step Json Product)} {st : Step Json Product} {s s' : Stream Json Product}

theorem outcome_event? : s.outcome.event? = none := by
  simp only [Stream.outcome]
  cases s.openError <;> rfl

theorem eventsOf_map {r : Result Json Product} (hn : r.event? = none) (waiters : List ℕ) :
    eventsOf (waiters.map (·, r)) = [] := by
  simp [eventsOf, hn]

-- More results that are no events, or more that take them from the queue.
theorem Core.results {rs : List (ℕ × Result Json Product)} {waiters : List ℕ} {queue : List (StreamEvent Json)}
    (h : Core trace s) (hcalls : rs.map Prod.fst ++ waiters = s.waiters) (hevents : eventsOf rs ++ queue = s.queue)
    (hsettled : Settled (heard trace) (.doReturn ∈ trace) (s.results ++ rs)) :
    Core trace { s with results := s.results ++ rs, waiters, queue } :=
  { h with
    numbered := by simpa [hcalls] using h.numbered
    taken    := by simpa [hevents] using h.taken
    full     := by simpa [hevents] using h.full
    settled  := hsettled }

theorem Core.settleWaiters (h : Core trace s) : Inv trace s.settleWaiters := by
  have hserve : Serves s.waiters s.queue (Stream.serve s.waiters s.queue : List (ℕ × Result Json Product) × _ × _) :=
    serve_serves s.waiters s.queue
  have hserved := h.results hserve.calls hserve.events <| hserve.settled _ _ _ h.settled
  simp only [Stream.settleWaiters]
  split
  case isFalse hended =>
    constructor
    case toCore  => exact hserved
    case waiting => 
      intro hw
      exact ⟨hserve.drained.resolve_left hw, by simpa using hended⟩
  case isTrue hended =>
    constructor
    case waiting => simp
    case toCore  =>
      have hover := (hserved.shut hended).2
      refine hserved.results (by simp [Function.comp_def]) (by simp [eventsOf_map outcome_event?]) ?_
      cases hserve.drained
      case inl hw => simpa [hw] using hserved.settled
      case inr hq =>
        have hall := hserved.full <| .inr <| .inl hended
        exact hserved.settled.overs hover (by simpa [hq] using hall) outcome_event? _

-- Steps that deliver nothing.
theorem heard_silent (hh : hear (heard trace) st = heard trace) : heard (trace ++ [st]) = heard trace := by
  rw [heard_concat, hh]

theorem hear_silent (hs : st = .register ∨ st = .called ∨ st = .next ∨ st = .doReturn) (h : Heard Json Product) :
    hear h st = h := by
  obtain ⟨events, out⟩ := h
  cases out <;> rcases hs with rfl | rfl | rfl | rfl <;> rfl

theorem Core.extend (h : Core trace s) (hh : heard (trace ++ [st]) = heard trace) (hst : st ≠ .doReturn) :
    Core (trace ++ [st]) s :=
  have hmem : (.doReturn : Step Json Product) ∈ trace ++ [st] ↔ .doReturn ∈ trace := by simp [hst.symm]
  { h with
    aborted  := h.aborted.trans hmem.symm
    opening  := hh ▸ h.opening
    live     := hh ▸ h.live
    shut     := hh ▸ h.shut
    taken    := hh ▸ h.taken
    full     := hh ▸ h.full
    streamId := hh ▸ h.streamId
    settled  := by simpa [hh, hst.symm] using h.settled }

theorem Inv.extend (h : Inv trace s) (hh : heard (trace ++ [st]) = heard trace) (hst : st ≠ .doReturn) :
    Inv (trace ++ [st]) s :=
  ⟨h.toCore.extend hh hst, h.waiting⟩

theorem Inv.next (h : Inv trace s) : Inv trace s.next := by
  have hidle (hw : s.queue ≠ [] ∨ s.ended) : s.waiters = [] := by
    by_contra hne
    have := h.waiting hne
    simp_all
  cases hqueue : s.queue
  case cons event queue =>
    have hnumbered := h.numbered
    have hnone := hidle (by simp [hqueue])
    have htaken := h.taken
    have hknown : s.streamId.or (some event.streamId) = s.streamId := by
      obtain ⟨rest, hrest⟩ := htaken
      rw [h.streamId, ← hrest, hqueue]
      cases eventsOf s.results <;> rfl
    simp only [Stream.next, hqueue]
    constructor
    case waiting => simp [hnone]
    case toCore  => exact { h.toCore with
        numbered  := by simpa [hnone, List.range_succ] using hnumbered
        taken     := by simpa [eventsOf, Result.event?, hqueue] using htaken
        full      := by simpa [eventsOf, Result.event?, hqueue] using h.full
        gone      := by simpa [hknown] using h.gone
        streamId  := by simpa [hknown] using h.streamId
        cancelled := by simpa [hknown] using h.cancelled
        settled   := h.settled.event }
  case nil =>
    by_cases hended : s.ended
    case pos =>
      have hnumbered := h.numbered
      have hnone := hidle (.inr hended)
      have hall := h.full <| .inr <| .inl hended
      have hnext : s.next = { s with calls := s.calls + 1, results := s.results ++ [(s.calls, s.outcome)] } := by
        simp only [Stream.next, hqueue, hended, if_true]
        rfl
      rw [hnext]
      constructor
      case waiting => simp [hnone]
      case toCore  => exact { h.toCore with
          numbered := by simpa [hnone, List.range_succ] using hnumbered
          taken    := by simpa [eventsOf, outcome_event?] using h.taken
          full     := by simpa [eventsOf, outcome_event?] using h.full
          settled  := h.settled.shut (h.shut hended).2 (by simpa [hqueue] using hall) }
    case neg =>
      have hnumbered := h.numbered
      have hnext : s.next = { s with calls := s.calls + 1, waiters := s.waiters ++ [s.calls] } := by
        simp [Stream.next, hqueue, hended]
      rw [hnext]
      constructor
      case waiting => simp [hqueue, hended]
      case toCore  => exact { h.toCore with numbered := by simp [List.range_succ, ← hnumbered] }

-- The end of a registered stream.
theorem Core.finish (h : Core trace s) (hs : s.registered) {openError : Option (StreamError Product)}
    (hh : hear (heard trace) st = ((heard trace).1, some (openError.elim .done .error))) (hst : st ≠ .doReturn) :
    Core (trace ++ [st]) { s with openError, ended := true, registered := false } := by
  have hheard := heard_concat.trans hh
  have hlive := h.live hs
  exact {
    numbered  := h.numbered
    aborted   := by simpa [hst.symm] using h.aborted
    opening   := fun hp => by simpa [hs] using (h.opening hp).1
    calling   := fun _ => .inr rfl
    live      := by simp
    shut      := fun _ => ⟨rfl, by rw [hheard]; rfl⟩
    gone      := by simp
    taken     := by simpa [hheard] using h.taken
    full      := fun _ => by simpa [hheard] using h.full (.inl hs)
    streamId  := by simpa [hheard] using h.streamId
    cancelled := h.cancelled
    settled   := h.settled.mono (List.mem_append_left _) (by simp [hlive.1]) }

theorem Core.event (h : Core trace s) (hs : s.registered) {event : StreamEvent Json}
    (hst : st = .deliver (.event (some event))) : Core (trace ++ [st])
      { s with
        queue     := s.queue ++ [event]
        streamId  := s.streamId.or (some event.streamId)
        cancelled := if s.aborted then s.cancelled ++ (s.streamId.or (some event.streamId)).toList else s.cancelled } := by
  subst hst
  have hlive := h.live hs
  have hheard : heard (trace ++ [.deliver (.event (some event))]) = ((heard trace).1 ++ [event], none) := by
    rw [heard_concat]
    simp [hear, hlive.1]
  have hall := h.full (.inl hs)
  have hid : s.streamId.or (some event.streamId) = ((heard trace).1 ++ [event]).head?.map StreamEvent.streamId := by
    rw [h.streamId]
    cases (heard trace).1 <;> rfl
  exact {
    numbered  := h.numbered
    aborted   := by simpa using h.aborted
    opening   := fun hp => by simpa [hs] using (h.opening hp).1
    calling   := h.calling
    live      := fun _ => ⟨by rw [hheard], hlive.2⟩
    shut      := by simp [hlive.2.1]
    gone      := by simp [hs]
    taken     := by simp [hheard, ← hall]
    full      := fun _ => by simp [hheard, ← hall]
    streamId  := by rw [hheard, hid]
    cancelled := fun ha id hi => by
      simp only [show s.aborted from ha, if_true]
      exact List.mem_append_right _ (by simpa [eq_comm] using hi)
    settled   := h.settled.mono (by simp) (by simp [hlive.1]) }

theorem Core.failOpen (h : Core trace s) (hp : s.phase = .opening) (error : StreamError Product) :
    Core (trace ++ [.failOpen error]) { s with openError := some error, ended := true, phase := .settled } := by
  have ⟨hregistered, hended, _, hnone⟩ := h.opening hp
  have hheard : heard (trace ++ [.failOpen error]) = ([], some (.error error)) := by
    rw [heard_concat, hnone]
    rfl
  have htaken := h.taken
  have hid := h.streamId
  rw [hnone] at htaken hid
  exact {
    numbered  := h.numbered
    aborted   := by simpa using h.aborted
    opening   := by simp
    calling   := by simp
    live      := by simp [hregistered]
    shut      := fun _ => ⟨hregistered, by rw [hheard]; rfl⟩
    gone      := by simp
    taken     := by rw [hheard]; exact htaken
    full      := fun _ => by simpa [hheard] using htaken
    streamId  := by rw [hheard]; exact hid
    cancelled := h.cancelled
    settled   := h.settled.mono (List.mem_append_left _) (by simp [hnone]) }

theorem Core.register (h : Core trace s) (hp : s.phase = .opening) : Core trace s.register := by
  have ⟨_, hended, hfresh, hnone⟩ := h.opening hp
  exact { h with
    opening := by simp [Stream.register]
    calling := fun _ => .inl rfl
    live    := fun _ => ⟨by rw [hnone], hended, rfl, hfresh⟩
    shut    := by simp [Stream.register, hended]
    gone    := by simp [Stream.register]
    full    := fun _ => h.full <| .inr <| .inr hp }

theorem Core.settle (h : Core trace s) (hp : s.phase = .calling) : Core trace { s with phase := .settled } :=
  { h with
    opening := by simp
    calling := by simp
    gone    := fun _ => h.gone (by simp [hp])
    full    := fun hl => h.full <| by simpa [hp] using hl }

theorem Core.doReturn_eq (h : Core trace s) : s.doReturn = { s with
    aborted    := true
    cancelled  := s.cancelled ++ s.streamId.toList
    registered := false
    results    := s.results ++ s.waiters.map (·, .done)
    waiters    := [] } := by
  cases hid : s.callbackId
  case true  => simp [Stream.doReturn, Stream.unregister, Stream.cancel, hid]
  case false =>
    have hr : s.registered = false := by
      by_contra hr
      simpa [hid] using (h.live (by simpa using hr)).2.2.1
    simp [Stream.doReturn, Stream.unregister, Stream.cancel, hid, hr]

theorem Inv.doReturn (h : Inv trace s) (hc : s.phase ≠ .calling) (hknown : s.registered → s.streamId.isSome) :
    Inv (trace ++ [.doReturn]) s.doReturn := by
  have hheard : heard (trace ++ [.doReturn]) = heard trace := heard_silent <| hear_silent (by simp) _
  have hends : eventsOf (s.waiters.map fun call => (call, (Result.done : Result Json Product))) = [] :=
    eventsOf_map rfl s.waiters
  have hmem : (.doReturn : Step Json Product) ∈ trace ++ [.doReturn] := by simp
  rw [h.toCore.doReturn_eq]
  constructor
  case waiting => simp
  case toCore  => exact {
    numbered  := by simpa [Function.comp_def] using h.numbered
    aborted   := by simp
    opening   := fun hp => by simpa [hheard] using (h.opening hp).2
    calling   := fun hp => absurd hp hc
    live      := by simp
    shut      := fun he => ⟨rfl, by rw [hheard]; exact (h.shut he).2⟩
    gone      := fun hp _ he => by
      by_cases hr : s.registered
      case pos => exact ⟨rfl, hknown hr⟩
      case neg => exact ⟨rfl, (h.gone hp (by simpa using hr) he).2⟩
    taken     := by simpa [hheard, hends] using h.taken
    full      := fun hl => by simpa [hheard, hends] using h.full (.inr <| by simpa using hl)
    streamId  := by simpa [hheard] using h.streamId
    cancelled := fun _ id hi => List.mem_append_right _ (by simpa [eq_comm] using hi)
    settled   := by
      have hsettled : Settled (heard (trace ++ [.doReturn])) (.doReturn ∈ trace ++ [.doReturn]) s.results :=
        hheard ▸ h.settled.mono (List.mem_append_left _) (fun _ _ => rfl)
      exact hsettled.lefts hmem _ }

theorem hear_prefix (h : Heard Json Product) : h.1 <+: (hear h st).1 := by
  simp only [hear]
  split <;> simp

-- What a host delivers to no entry changes nothing.
theorem Inv.ignored (h : Inv trace s) (hp : s.phase ≠ .opening) (hr : s.registered = false) (hst : st ≠ .doReturn) :
    Inv (trace ++ [st]) s := by
  cases hout : (heard trace).2
  case some r => exact h.extend (heard_silent <| hear_over hout) hst
  case none   =>
    have hended : s.ended = false := by
      by_contra he
      simpa [hout] using (h.shut (by simpa using he)).2
    have ⟨haborted, hid⟩ := h.gone hp hr hended
    have hprefix : (heard trace).1 <+: (heard (trace ++ [st])).1 := heard_concat ▸ hear_prefix (heard trace)
    have hhead : (heard (trace ++ [st])).1.head? = (heard trace).1.head? := by
      rw [h.streamId] at hid
      obtain ⟨rest, hrest⟩ := hprefix
      rw [← hrest]
      cases hevents : (heard trace).1
      case nil  => simp [hevents] at hid
      case cons => rfl
    constructor
    case waiting => exact h.waiting
    case toCore  => exact { h.toCore with
        aborted  := by simpa [hst.symm] using h.aborted
        opening  := fun hop => absurd hop hp
        live     := by simp [hr]
        shut     := by simp [hended]
        taken    := h.taken.trans hprefix
        full     := by simp [hr, hended, hp]
        streamId := by rw [hhead, h.streamId]
        settled  := h.settled.mono (List.mem_append_left _) (by simp [hout]) }

end Invariant

section Law

variable {trace : List (Step Json Product)} {st : Step Json Product} {s s' : Stream Json Product}

-- A payload that ends the stream but leaves its entry.
def Payload.malformed? : Payload Json Product → Bool
  | .notJson | .malformed | .event none | .unknown _ => true
  | _                                                => false

-- No such payload comes, the consumer does not leave between the registration and the first event, and a
-- call of the bridge that throws has not ended the stream.
def Fine (s : Stream Json Product) : Step Json Product → Prop
  | .deliver payload => s.registered → payload.malformed? = false
  | .doReturn        => s.registered → s.streamId.isSome
  | .callThrew _     => s.ended = false
  | _                => True

theorem Inv.initial : Inv [] ({} : Stream Json Product) := by
  constructor
  case waiting => simp
  case toCore  => constructor <;> simp [heard, eventsOf, Settled.nil]

theorem Inv.finish (h : Inv trace s) (hs : s.registered) {openError : Option (StreamError Product)}
    (hh : hear (heard trace) st = ((heard trace).1, some (openError.elim .done .error))) (hst : st ≠ .doReturn) :
    Inv (trace ++ [st]) { s with openError, ended := true }.unregister.settleWaiters := by
  have hgone : { s with openError, ended := true }.unregister =
      { s with openError, ended := true, registered := false } := by
    simp [Stream.unregister, (h.live hs).2.2.1]
  rw [hgone]
  exact (h.toCore.finish hs hh hst).settleWaiters

theorem Inv.deliver (h : Inv trace s) (hs : s.registered) {payload : Payload Json Product}
    (hfine : payload.malformed? = false) : Inv (trace ++ [.deliver payload]) (s.deliver payload) := by
  have hlive := h.live hs
  have hends {p : Payload Json Product} {openError : Option (StreamError Product)} (hp : ∀ e, p ≠ .event (some e))
      (he : p.ending = openError.elim .done .error) :
      Inv (trace ++ [.deliver p]) { s with openError, ended := true }.unregister.settleWaiters := by
    refine h.finish hs ?_ (by simp)
    rw [← he]
    cases p
    case event event =>
      cases event
      case none   => simp [hear, hlive.1]
      case some e => exact absurd rfl (hp e)
    all_goals simp [hear, hlive.1]
  cases payload
  case notJson       => cases hfine
  case malformed     => cases hfine
  case unknown       => cases hfine
  case terminal      =>
    have hnone := hlive.2.2.2
    have hending : (.terminal : Payload Json Product).ending = s.openError.elim .done .error := by rw [hnone]; rfl
    exact hends (by simp) hending
  case event event   =>
    cases event
    case none       => cases hfine
    case some event =>
      have hcore : Core (trace ++ [.deliver (.event (some event))]) _ := h.toCore.event hs rfl
      have hevent := hcore.settleWaiters
      simp only [Stream.deliver]
      cases ha : s.aborted <;> simpa [ha, Stream.cancel] using hevent
  case error error   =>
    cases error
    case none       => exact hends (by simp) rfl
    case some error => exact hends (by simp) rfl

theorem Inv.step (h : Inv trace s) (hfine : Fine s st) (hs : step s st = some s') : Inv (trace ++ [st]) s' := by
  cases st <;> simp only [step, Option.ite_none_left_eq_some, Option.ite_none_right_eq_some, Option.some.injEq] at hs
  case failOpen error =>
    obtain ⟨hp, rfl⟩ := hs
    exact (h.toCore.failOpen hp error).settleWaiters
  case register =>
    obtain ⟨hp, rfl⟩ := hs
    have hregistered : Inv trace s.register := ⟨h.toCore.register hp, h.waiting⟩
    exact hregistered.extend (heard_silent <| hear_silent (by simp) _) (by simp)
  case called =>
    obtain ⟨hp, rfl⟩ := hs
    exact ((h.toCore.settle hp).extend (heard_silent <| hear_silent (by simp) _) (by simp)).settleWaiters
  case callThrew error =>
    obtain ⟨hp, rfl⟩ := hs
    have hregistered : s.registered := (h.calling hp).resolve_right <| by simpa [Fine] using hfine
    have hlive := h.live hregistered
    have hthrew : s.callThrew error =
        { s with openError := some error, ended := true, registered := false, phase := .settled }.settleWaiters := by
      simp [Stream.callThrew, Stream.unregister, hlive.2.2.1]
    have hheard : hear (heard trace) (.callThrew error) = ((heard trace).1, some (.error error)) := by
      simp [hear, hlive.1]
    rw [hthrew]
    exact ((h.toCore.finish hregistered hheard (by simp)).settle hp).settleWaiters
  case deliver payload =>
    obtain ⟨hp, rfl⟩ := hs
    cases hr : s.registered
    case true  => simpa using h.deliver hr (hfine hr)
    case false => simpa using h.ignored hp hr (by simp)
  case reject message =>
    obtain ⟨hp, rfl⟩ := hs
    cases hr : s.registered
    case true  =>
      have hheard : hear (heard trace) (.reject message) = ((heard trace).1, some (.error (.transport message))) := by
        simp [hear, (h.live hr).1]
      simp only [if_true]
      exact h.finish hr hheard (by simp)
    case false => simpa using h.ignored hp hr (by simp)
  case next =>
    obtain ⟨hp, rfl⟩ := hs
    exact h.next.extend (heard_silent <| hear_silent (by simp) _) (by simp)
  case doReturn =>
    obtain ⟨hp, rfl⟩ := hs
    exact h.doReturn hp hfine

theorem run_concat : run (trace ++ [st]) = (run trace).bind (step · st) := by
  simp only [run, List.foldlM_append, List.foldlM_cons, List.foldlM_nil]
  cases trace.foldlM step {} <;> simp

theorem Inv.run (h : run trace = some s)
    (hfine : ∀ before st after sb, trace = before ++ st :: after → run before = some sb → Fine sb st) : Inv trace s := by
  induction trace using List.reverseRecOn generalizing s
  case nil                         => cases h; exact .initial
  case append_singleton trace st hi =>
    rw [run_concat, Option.bind_eq_some_iff] at h
    obtain ⟨sb, hb, hs⟩ := h
    have hbefore := hi hb fun before st' after sb' he => hfine before st' (after ++ [st]) sb' (by simp [he])
    exact hbefore.step (hfine trace st [] sb rfl hb) hs

-- What holds once and then stays.
structure Grows (s s' : Stream Json Product) : Prop where
  results : s.results <+: s'.results
  gone    : s.phase ≠ .opening ∧ s.registered = false → s'.phase ≠ .opening ∧ s'.registered = false

theorem Grows.trans {s'' : Stream Json Product} (h : Grows s s') (h' : Grows s' s'') : Grows s s'' where
  results := h.results.trans h'.results
  gone    := h'.gone ∘ h.gone

theorem Grows.settleWaiters (s : Stream Json Product) : Grows s s.settleWaiters := by
  simp only [Stream.settleWaiters]
  split <;> constructor <;> simp

theorem Grows.unregister (s : Stream Json Product) : Grows s s.unregister := by
  simp only [Stream.unregister]
  split <;> constructor <;> simp_all

theorem Grows.frame (hr : s'.results = s.results) (hg : s'.registered = s.registered) (hp : s'.phase = s.phase) :
    Grows s s' := by
  constructor <;> simp [hr, hg, hp]

theorem Grows.deliver (s : Stream Json Product) (payload : Payload Json Product) : Grows s (s.deliver payload) := by
  have hfail (message : String) : Grows s (s.failWith message) := .frame rfl rfl rfl
  cases payload
  case notJson       => exact (hfail _).trans (.settleWaiters _)
  case malformed     => exact (hfail _).trans (.settleWaiters _)
  case unknown       => exact (hfail _).trans (.settleWaiters _)
  case terminal      =>
    have hend : Grows s { s with ended := true } := .frame rfl rfl rfl
    exact (hend.trans (.unregister _)).trans (.settleWaiters _)
  case event event   =>
    cases event
    case none       => exact (hfail _).trans (.settleWaiters _)
    case some event =>
      simp only [Stream.deliver]
      refine Grows.trans (.frame ?_ ?_ ?_) (.settleWaiters _)
      all_goals cases s.aborted <;> rfl
  case error error   =>
    cases error
    case none       => exact ((hfail _).trans (.unregister _)).trans (.settleWaiters _)
    case some error =>
      have hend : Grows s { s with openError := some (.product error), ended := true } := .frame rfl rfl rfl
      exact (hend.trans (.unregister _)).trans (.settleWaiters _)

theorem Grows.of_step (hs : step s st = some s') : Grows s s' := by
  cases st <;> simp only [step, Option.ite_none_left_eq_some, Option.ite_none_right_eq_some, Option.some.injEq] at hs <;>
    obtain ⟨hp, rfl⟩ := hs
  case failOpen error =>
    have hfail : Grows s { s with openError := some error, ended := true, phase := .settled } := by
      constructor <;> simp [hp]
    exact hfail.trans (.settleWaiters _)
  case register => constructor <;> simp [Stream.register, hp]
  case called =>
    have hcalled : Grows s { s with phase := .settled } := by constructor <;> simp
    exact hcalled.trans (.settleWaiters _)
  case callThrew error =>
    have hthrew : Grows s.unregister { s.unregister with openError := some error, ended := true, phase := .settled } := by
      constructor <;> simp
    exact ((Grows.unregister s).trans hthrew).trans (.settleWaiters _)
  case deliver payload =>
    split
    case isTrue  => exact .deliver s payload
    case isFalse => exact .frame rfl rfl rfl
  case reject message =>
    split
    case isTrue  =>
      have hfail : Grows s (s.failWith message) := .frame rfl rfl rfl
      exact (hfail.trans (.unregister _)).trans (.settleWaiters _)
    case isFalse => exact .frame rfl rfl rfl
  case next =>
    simp only [Stream.next]
    split
    case h_1 => constructor <;> simp
    case h_2 => split <;> constructor <;> simp
  case doReturn =>
    simp only [Stream.doReturn, Stream.unregister]
    split <;> constructor <;> simp_all [Stream.cancel]

theorem Grows.of_run (after : List (Step Json Product)) (h : after.foldlM step s = some s') : Grows s s' := by
  induction after generalizing s
  case nil                 => cases h; exact .frame rfl rfl rfl
  case cons st after hi =>
    rw [List.foldlM_cons, Option.bind_eq_bind, Option.bind_eq_some_iff] at h
    obtain ⟨next, hstep, hafter⟩ := h
    exact (Grows.of_step hstep).trans <| hi hafter

-- The state before a call of `return`, and what it leaves.
theorem doReturn_split (h : run trace = some s) {before after : List (Step Json Product)}
    (he : trace = before ++ .doReturn :: after) {sb : Stream Json Product} (hb : run before = some sb) :
    sb.phase ≠ .calling ∧ Grows sb.doReturn s := by
  have hrest : (.doReturn :: after).foldlM step sb = some s := by
    simpa [he, run, List.foldlM_append, show before.foldlM step {} = some sb from hb] using h
  rw [List.foldlM_cons, Option.bind_eq_bind, Option.bind_eq_some_iff] at hrest
  obtain ⟨next, hstep, hafter⟩ := hrest
  simp only [step, Option.ite_none_left_eq_some, Option.some.injEq] at hstep
  obtain ⟨hp, rfl⟩ := hstep
  exact ⟨hp, Grows.of_run after hafter⟩

structure Law (trace : List (Step Json Product)) (s : Stream Json Product) : Prop where
  numbered  : s.results.map Prod.fst ++ s.waiters = List.range s.calls
  events    : eventsOf s.results <+: (heard trace).1
  settled   : Settled (heard trace) (.doReturn ∈ trace) s.results
  waiting   : s.waiters ≠ [] → .doReturn ∉ trace → eventsOf s.results = (heard trace).1 ∧ (heard trace).2 = none
  pending   : ∀ before after sb, trace = before ++ .doReturn :: after → run before = some sb →
    ∀ call ∈ sb.waiters, (call, .done) ∈ s.results
  ended     : (heard trace).2.isSome → s.registered = false
  left      : ∀ before after sb, trace = before ++ .doReturn :: after → run before = some sb →
    sb.phase ≠ .opening → s.registered = false
  cancelled : .doReturn ∈ trace → ∀ event ∈ (heard trace).1.head?, event.streamId ∈ s.cancelled

-- A stream in whose run all steps are fine delivers in order, ends once and cancels when it is left.
theorem stream_delivers (h : run trace = some s)
    (hfine : ∀ before st after sb, trace = before ++ st :: after → run before = some sb → Fine sb st) :
    Law trace s := by
  have hinv := Inv.run h hfine
  have hbefore {before after : List (Step Json Product)} {sb : Stream Json Product}
      (he : trace = before ++ .doReturn :: after) (hb : run before = some sb) : Inv before sb :=
    Inv.run hb fun before' st after' sb' he' =>
      hfine before' st (after' ++ .doReturn :: after) sb' (by simp [he, he'])
  constructor
  case numbered  => exact hinv.numbered
  case events    => exact (List.prefix_append ..).trans hinv.taken
  case settled   => exact hinv.settled
  case waiting   =>
    intro hw hstay
    have ⟨hqueue, hended⟩ := hinv.waiting hw
    have haborted : s.aborted = false := by simpa [hstay] using hinv.aborted
    by_cases hp : s.phase = .opening
    case pos =>
      have hall := hinv.full (.inr <| .inr hp)
      exact ⟨by simpa [hqueue] using hall, by simp [(hinv.opening hp).2.2.2]⟩
    case neg =>
      have hr : s.registered := by
        by_contra hr
        simpa [haborted] using (hinv.gone hp (by simpa using hr) hended).1
      have hall := hinv.full (.inl hr)
      exact ⟨by simpa [hqueue] using hall, (hinv.live hr).1⟩
  case pending   =>
    intro before after sb he hb call hc
    apply (doReturn_split h he hb).2.results.subset
    rw [(hbefore he hb).toCore.doReturn_eq]
    simp [hc]
  case ended     =>
    intro hsome
    by_contra hr
    simp [(hinv.live (by simpa using hr)).1] at hsome
  case left      =>
    intro before after sb he hb hp
    refine ((doReturn_split h he hb).2.gone ?_).2
    rw [(hbefore he hb).toCore.doReturn_eq]
    exact ⟨hp, rfl⟩
  case cancelled =>
    intro hleft event he
    exact hinv.cancelled (hinv.aborted.mpr hleft) event.streamId (by rw [hinv.streamId]; simp_all)

def oneEvent : List (Step Unit Unit) :=
  [.next, .register, .called, .deliver (.event (some ⟨"s1", (), "generation.delta", ()⟩)), .next, .deliver .terminal]

theorem stream_delivers_one : ∃ s, run oneEvent = some s ∧ Law oneEvent s := by
  refine ⟨_, rfl, stream_delivers rfl fun before st after sb he _ => ?_⟩
  have hm : st ∈ oneEvent := by simp [he]
  simp only [oneEvent, List.mem_cons, List.not_mem_nil, or_false] at hm
  rcases hm with rfl | rfl | rfl | rfl | rfl | rfl <;> simp [Fine, Payload.malformed?]

-- The consumer leaves before the open has gone through: the entry stays, for the stream identifier to be learnt.
theorem entry_stays : ∃ s : Stream Unit Unit, run [.doReturn, .register, .called] = some s ∧ s.phase = .settled ∧
    s.aborted ∧ s.registered :=
  ⟨_, rfl, rfl, rfl, rfl⟩

end Law

end Frontend.MobileStream
