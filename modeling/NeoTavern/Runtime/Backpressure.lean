import NeoTavern.Runtime.InFlight

namespace Forwarding

-- A frame of the control channel, as far as it matters what it is about.
inductive Frame
  | rpcRequest (k : Nat)
  | workerReady (worker : BrokerWorkerRef)
  | workerTerminated (worker : BrokerWorkerRef)
  | terminateAck
  | other
  deriving DecidableEq

def maxPending := 64
def dataOutMaxQueuedFrames := 8

-- Frames bear the number of their push. Those of `written` have been handed to the stream; while the
-- outbox waits for the stream to drain, the last of them is the first that is pending.
structure ControlOutbox where
  pending : List (Nat × Frame) := []
  running : Bool := false
  pushed  : Nat := 0
  dropped : Nat := 0
  written : List (Nat × Frame) := []
  deriving DecidableEq

namespace ControlOutbox

-- Whether the stream has room left after its n-th write.
variable (ready : Nat → Bool)

-- The loop of `pump`, up to a write that leaves no room.
def write (o : ControlOutbox) : List (Nat × Frame) → ControlOutbox
  | []         => { o with pending := [], running := false }
  | f :: frames =>
    let o := { o with written := o.written ++ [f] }
    if ready (o.written.length - 1) then
      write o frames
    else
      { o with pending := f :: frames, running := true }

def pump (o : ControlOutbox) : ControlOutbox :=
  if o.running then o else write ready o o.pending

def push (o : ControlOutbox) (frame : Frame) : ControlOutbox :=
  if o.pending.length ≥ maxPending then
    { o with dropped := o.dropped + 1, pushed := o.pushed + 1 }
  else
    pump ready { o with pending := o.pending ++ [(o.pushed, frame)], pushed := o.pushed + 1 }

-- The stream has drained, and the loop goes on after the frame that it waited for.
def drain (o : ControlOutbox) : ControlOutbox :=
  if o.running then write ready o o.pending.tail else o

-- What has not been handed to the stream yet.
def unwritten (o : ControlOutbox) : List (Nat × Frame) :=
  if o.running then o.pending.tail else o.pending

end ControlOutbox

-- What comes from the host, from a timer or from the supervisor, and is no submission.
def Event.isSubmit {R : Type} : Event R → Bool
  | .submit .. => true
  | _          => false

-- The runtime process. `queued` lists the calls whose frame has been queued, and `lifecycle` the
-- numbers of the frames that report on workers and on the end of the process.
structure Process (R : Type) where
  core       : Core R := {}
  outbox     : ControlOutbox := {}
  dataOpen   : Bool := true
  dataQueued : Nat := 0
  queued     : List Nat := []
  lifecycle  : List Nat := []

inductive ProcessEvent (R : Type)
  | submit (params : AdmitParams) (now : Int)
  | submitOpaque (params : AdmitParams) (now : Int)
  | core (e : Event R) (h : e.isSubmit = false)
  | workerReady (worker : BrokerWorkerRef)
  | workerExit (worker : BrokerWorkerRef)
  | terminateAck
  | other
  | drain
  | dataWritten
  | dataClosed

namespace Process

variable {R : Type} (ready : Nat → Bool)

def sendControlFrame (s : Process R) (frame : Frame) : Process R :=
  { s with outbox := s.outbox.push ready frame }

def report (s : Process R) (frame : Frame) : Process R :=
  { s.sendControlFrame ready frame with lifecycle := s.outbox.pushed :: s.lifecycle }

-- Whether the data pipe takes a frame.
def takesData (s : Process R) : Bool :=
  s.dataOpen && s.dataQueued < dataOutMaxQueuedFrames

-- The wiring of `sendRpcRequest`: what becomes of the frame is not reported back.
def submit (s : Process R) (params : AdmitParams) (now : Int) : Process R :=
  let t := { s with core := s.core.admitAndRegister params (.ok true) now }
  match s.core.admission params now with
  | some _ => t
  | none   =>
    let k := s.core.calls.length
    { t.sendControlFrame ready (.rpcRequest k) with
      queued := if s.outbox.pending.length ≥ maxPending then s.queued else k :: s.queued }

-- The wiring of `sendRpcRequestData`, which drops what `sendOpaqueDataFrame` returns.
def submitOpaque (s : Process R) (params : AdmitParams) (now : Int) : Process R :=
  let t := { s with core := s.core.admitAndRegister params (.ok true) now }
  match s.core.admission params now with
  | some _ => t
  | none   =>
    if s.takesData then
      { t with dataQueued := s.dataQueued + 1, queued := s.core.calls.length :: s.queued }
    else
      t

def step (s : Process R) : ProcessEvent R → Process R
  | .submit params now       => s.submit ready params now
  | .submitOpaque params now => s.submitOpaque params now
  | .core e _                => { s with core := s.core.step e }
  | .workerReady worker      => s.report ready (.workerReady worker)
  | .workerExit worker       =>
    { s with core := s.core.step (.workerExit worker) }.report ready (.workerTerminated worker)
  | .terminateAck            => s.report ready .terminateAck
  | .other                   => s.sendControlFrame ready .other
  | .drain                   => { s with outbox := s.outbox.drain ready }
  | .dataWritten             => { s with dataQueued := s.dataQueued - 1 }
  | .dataClosed              => { s with dataOpen := false }

def run (s : Process R) (events : List (ProcessEvent R)) : Process R :=
  events.foldl (step ready) s

end Process
end Forwarding

namespace Forwarding

namespace ControlOutbox

variable {ready : Nat → Bool} {o : ControlOutbox} {frame : Frame} {x : Nat × Frame} {d : Nat}

-- The frames that have been written or will be, in their order.
def all (o : ControlOutbox) : List (Nat × Frame) :=
  o.written ++ o.unwritten

structure Sound (o : ControlOutbox) : Prop where
  running : o.running = !o.pending.isEmpty
  numbers : ∀ x ∈ o.all, x.fst < o.pushed

-- A frame of which at most `d` frames before it have not been written, nor it.
def Due (o : ControlOutbox) (x : Nat × Frame) (d : Nat) : Prop :=
  ∃ j, o.all[j]? = some x ∧ j < o.written.length + d

theorem write_spec (ready : Nat → Bool) (o : ControlOutbox) (frames : List (Nat × Frame)) :
    (o.write ready frames).all = o.written ++ frames ∧
      (o.write ready frames).running = !(o.write ready frames).pending.isEmpty ∧
        (o.write ready frames).pushed = o.pushed ∧
          o.written.length + min 1 frames.length ≤ (o.write ready frames).written.length := by
  induction frames generalizing o
  case nil => simp [write, all, unwritten]
  case cons f frames ih =>
    rw [write]
    dsimp only
    split
    case isTrue =>
      have ⟨hall, hrun, hpushed, hlen⟩ := ih { o with written := o.written ++ [f] }
      refine ⟨by simpa using hall, hrun, hpushed, ?_⟩
      simp only [List.length_append, List.length_cons, List.length_nil] at hlen ⊢
      omega
    case isFalse => simp [all, unwritten]

theorem push_full (h : maxPending ≤ o.pending.length) :
    o.push ready frame = { o with dropped := o.dropped + 1, pushed := o.pushed + 1 } :=
  if_pos h

theorem push_spec (ready : Nat → Bool) (frame : Frame) (hs : o.Sound) (h : ¬maxPending ≤ o.pending.length) :
    (o.push ready frame).all = o.all ++ [(o.pushed, frame)] ∧
      (o.push ready frame).running = !(o.push ready frame).pending.isEmpty ∧
        (o.push ready frame).pushed = o.pushed + 1 ∧
          o.written.length ≤ (o.push ready frame).written.length := by
  rw [push, if_neg h, pump]
  split
  case isTrue hr =>
    have hr : o.running = true := hr
    have hne := hs.running
    rw [hr] at hne
    cases hp : o.pending
    case nil => simp [hp] at hne
    case cons f frames => simp [all, unwritten, hr, hp]
  case isFalse hr =>
    have hr : o.running = false := Bool.eq_false_iff.mpr hr
    have hp : o.pending = [] := by simpa [hr] using hs.running
    have ⟨hall, hrun, hpushed, hlen⟩ := write_spec ready
      { o with pending := o.pending ++ [(o.pushed, frame)], pushed := o.pushed + 1 }
        (o.pending ++ [(o.pushed, frame)])
    refine ⟨?_, hrun, hpushed, Nat.le_trans (Nat.le_add_right ..) hlen⟩
    rw [hall, hp]
    simp [all, unwritten, hr, hp]

theorem drain_spec (ready : Nat → Bool) (hs : o.Sound) : (o.drain ready).all = o.all ∧
    (o.drain ready).running = (!(o.drain ready).pending.isEmpty) ∧
      (o.drain ready).pushed = o.pushed ∧
        o.written.length + min 1 o.unwritten.length ≤ (o.drain ready).written.length := by
  rw [drain]
  split
  case isTrue hr =>
    have hr : o.running = true := hr
    have ⟨hall, hrun, hpushed, hlen⟩ := write_spec ready o o.pending.tail
    refine ⟨?_, hrun, hpushed, ?_⟩
    · rw [hall]
      simp [all, unwritten, hr]
    · simpa [unwritten, hr] using hlen
  case isFalse hr =>
    have hr : o.running = false := Bool.eq_false_iff.mpr hr
    have hp : o.pending = [] := by simpa [hr] using hs.running
    exact ⟨rfl, hs.running, rfl, by simp [unwritten, hr, hp]⟩

theorem pushed_push (hs : o.Sound) : (o.push ready frame).pushed = o.pushed + 1 := by
  by_cases h : maxPending ≤ o.pending.length
  case pos => rw [push_full h]
  case neg => exact (push_spec ready frame hs h).right.right.left

theorem Sound.push (hs : o.Sound) : (o.push ready frame).Sound := by
  by_cases h : maxPending ≤ o.pending.length
  case pos =>
    rw [push_full h]
    exact ⟨hs.running, fun x hx => Nat.lt_succ_of_lt <| hs.numbers x hx⟩
  case neg =>
    have ⟨hall, hrun, hpushed, _⟩ := push_spec ready frame hs h
    refine ⟨hrun, fun x hx => ?_⟩
    rw [hall] at hx
    rw [hpushed]
    rcases List.mem_append.mp hx with hx | hx
    · exact Nat.lt_succ_of_lt <| hs.numbers x hx
    · rw [List.mem_singleton.mp hx]
      exact Nat.lt_succ_self _

theorem Sound.drain (hs : o.Sound) : (o.drain ready).Sound := by
  have ⟨hall, hrun, hpushed, _⟩ := drain_spec ready hs
  exact ⟨hrun, fun x hx => hpushed ▸ hs.numbers x (hall ▸ hx)⟩

theorem Due.push (hs : o.Sound) (h : o.Due x d) : (o.push ready frame).Due x d := by
  have ⟨j, hj, hlt⟩ := h
  by_cases hfull : maxPending ≤ o.pending.length
  case pos =>
    rw [push_full hfull]
    exact ⟨j, hj, hlt⟩
  case neg =>
    have ⟨hall, _, _, hlen⟩ := push_spec ready frame hs hfull
    refine ⟨j, ?_, by omega⟩
    rwa [hall, List.getElem?_append_left (List.getElem?_eq_some_iff.mp hj).fst]

-- Each drain brings a frame nearer to the stream.
theorem Due.drain (hs : o.Sound) (h : o.Due x (d + 1)) : (o.drain ready).Due x d := by
  have ⟨j, hj, hlt⟩ := h
  have ⟨hall, _, _, hlen⟩ := drain_spec ready hs
  refine ⟨j, hall ▸ hj, ?_⟩
  have hbound := (List.getElem?_eq_some_iff.mp hj).fst
  rw [all, List.length_append] at hbound
  omega

theorem Due.written (h : o.Due x 0) : x ∈ o.written := by
  have ⟨j, hj, hlt⟩ := h
  rw [all, List.getElem?_append_left hlt] at hj
  exact List.mem_of_getElem? hj

theorem due_of_mem (h : x ∈ o.all) : o.Due x o.pending.length := by
  have ⟨j, hj⟩ := List.mem_iff_getElem?.mp h
  refine ⟨j, hj, ?_⟩
  have hbound := (List.getElem?_eq_some_iff.mp hj).fst
  have hlen : o.unwritten.length ≤ o.pending.length := by
    unfold unwritten
    split <;> simp
  rw [all, List.length_append] at hbound
  omega

end ControlOutbox

namespace Core

variable {R : Type} {s t : Core R} {e : Event R}

-- No call is added, what has settled stays so, and nothing is put into the table.
structure Evolves (s t : Core R) : Prop where
  length   : t.calls.length = s.calls.length
  calls    : ∀ (k : Nat) d, t.calls[k]? = some d → ∃ c, s.calls[k]? = some c ∧ d.params = c.params ∧
    d.admitted = c.admitted ∧ ∀ o, c.settled = some o → d.settled = some o
  inFlight : ∀ x ∈ t.inFlight, x ∈ s.inFlight

theorem Evolves.of_eq (hc : t.calls = s.calls) (hi : t.inFlight = s.inFlight) : s.Evolves t where
  length         := by rw [hc]
  calls k d hd   := ⟨d, hc ▸ hd, rfl, rfl, fun _ => id⟩
  inFlight x hx  := hi ▸ hx

theorem Evolves.trans {u : Core R} (h : s.Evolves t) (h' : t.Evolves u) : s.Evolves u where
  length := h'.length.trans h.length
  calls k d hd := by
    have ⟨c', hc', hp', ha', hs'⟩ := h'.calls k d hd
    have ⟨c, hc, hp, ha, hs⟩ := h.calls k c' hc'
    exact ⟨c, hc, hp'.trans hp, ha'.trans ha, fun o ho => hs' o <| hs o ho⟩
  inFlight x hx := h.inFlight x <| h'.inFlight x hx

theorem evolves_settleWhere {hit : String × Nat → Bool} {outcome : Call R → Except (Error R) R} :
    s.Evolves (s.settleWhere hit outcome) where
  length := by simp [settleWhere]
  calls k d hd := by
    rw [getElem?_settleWhere] at hd
    obtain ⟨c, hc, heq⟩ := Option.map_eq_some_iff.mp hd
    refine ⟨c, hc, ?_⟩
    split at heq
    case isTrue =>
      subst heq
      exact ⟨rfl, rfl, fun o ho => by simp [Call.settle, ho]⟩
    case isFalse =>
      subst heq
      exact ⟨rfl, rfl, fun _ => id⟩
  inFlight x hx := (List.mem_filter.mp hx).left

theorem evolves_map {f : Call R → Call R} (hp : ∀ c, (f c).params = c.params)
    (ha : ∀ c, (f c).admitted = c.admitted) (hs : ∀ c, (f c).settled = c.settled) :
    s.Evolves { s with calls := s.calls.map f } where
  length := by simp
  calls k d hd := by
    rw [List.getElem?_map] at hd
    have ⟨c, hc, heq⟩ := Option.map_eq_some_iff.mp hd
    subst heq
    exact ⟨c, hc, hp c, ha c, fun o ho => (hs c).trans ho⟩
  inFlight _ := id

theorem evolves_post {worker : BrokerWorkerRef} {requestId : String} {answer : Answer} :
    s.Evolves (s.post worker requestId answer) := by
  unfold post
  split
  case isFalse => exact .of_eq rfl rfl
  case isTrue  => refine evolves_map ?_ ?_ ?_ <;> intro c <;> split <;> rfl

theorem evolves_deadline {k : Nat} : s.Evolves (s.deadline k) := by
  by_cases hk : ∃ c, s.calls[k]? = some c ∧ c.timer
  case neg =>
    rw [deadline_of_not fun c hc ht => hk ⟨c, hc, ht⟩]
    exact .of_eq rfl rfl
  case pos =>
    have ⟨c, hc, ht⟩ := hk
    rw [deadline_eq hc ht]
    have hm : s.Evolves { s with calls := s.calls.modify k ({ · with timer := false }) } := by
      constructor
      case length   => simp
      case inFlight => exact fun _ => id
      case calls    =>
        intro j d hd
        rw [List.getElem?_modify] at hd
        have ⟨c, hc, heq⟩ := Option.map_eq_some_iff.mp hd
        refine ⟨c, hc, ?_⟩
        split at heq
        all_goals
          subst heq
          exact ⟨rfl, rfl, fun _ => id⟩
    exact hm.trans evolves_settleWhere

theorem evolves_step (h : e.isSubmit = false) : s.Evolves (s.step e) := by
  cases e
  case submit            => cases h
  case rpcResponse       => exact evolves_settleWhere
  case rpcResponseData   => exact evolves_post
  case deadline          => exact evolves_deadline
  case shutdown          => exact evolves_settleWhere
  case workerSpawn       => exact .of_eq rfl rfl
  case workerExit worker =>
    have hw : s.Evolves { s with workers := s.workers.filter (· ≠ worker) } := .of_eq rfl rfl
    exact hw.trans evolves_settleWhere
  case revoke pluginId name reason =>
    cases name
    case none =>
      have hr : s.Evolves { s with revokedPlugins := s.revokedPlugins ++ [pluginId] } := .of_eq rfl rfl
      exact hr.trans evolves_settleWhere
    case some name =>
      have hr : s.Evolves { s with revokedPairs := s.revokedPairs ++ [Broker.pairKey pluginId name] } :=
        .of_eq rfl rfl
      exact hr.trans evolves_settleWhere
  case rpcResponseStream worker requestId final =>
    cases final
    case false => exact .of_eq rfl rfl
    case true  => exact evolves_post

-- The admitted calls that are not queued have been rejected and are not in the table.
def Rejects (s : Core R) (queued : List Nat) : Prop :=
  ∀ k c, s.calls[k]? = some c → c.admitted → k ∈ queued ∨
    (∃ error, c.settled = some (.error error)) ∧ ∀ i, (i, k) ∉ s.inFlight

variable {queued : List Nat}

theorem Rejects.evolve (h : s.Rejects queued) (he : s.Evolves t) : t.Rejects queued := by
  intro k d hd hadm
  have ⟨c, hc, _, hadm', hset⟩ := he.calls k d hd
  rcases h k c hc (hadm' ▸ hadm) with hq | ⟨⟨error, herr⟩, hno⟩
  · exact .inl hq
  · exact .inr ⟨⟨error, hset _ herr⟩, fun i hi => hno i <| he.inFlight _ hi⟩

theorem Rejects.refuse {c : Call R} (h : s.Rejects queued) (hc : c.admitted = false) :
    Rejects { s with calls := s.calls ++ [c] } queued := by
  intro k d hd hadm
  rcases getElem?_concat_cases hd with hd | ⟨_, rfl⟩
  · exact h k d hd hadm
  · rw [hc] at hadm
    cases hadm

-- An admitted call waits, whether its frame has been queued or not.
theorem rejects_register_iff (params : AdmitParams) (h : s.Rejects queued)
    (hle : ∀ k ∈ queued, k < s.calls.length) (room : Bool) :
    Rejects { s with
      calls    := s.calls ++ [{ params }]
      inFlight := s.inFlight ++ [(params.requestId, s.calls.length)]
    } (if room then s.calls.length :: queued else queued) ↔ room := by
  constructor
  · intro hr
    rcases hr s.calls.length _ List.getElem?_concat_length rfl with hq | ⟨⟨_, herr⟩, _⟩
    · cases room
      case true  => rfl
      case false => exact absurd (hle _ hq) (Nat.lt_irrefl _)
    · cases herr
  · intro hroom k c hc hadm
    rw [if_pos hroom]
    rcases getElem?_concat_cases hc with hc | ⟨rfl, _⟩
    · rcases h k c hc hadm with hq | ⟨herr, hno⟩
      · exact .inl <| List.mem_cons_of_mem _ hq
      · refine .inr ⟨herr, fun i hi => ?_⟩
        rcases List.mem_append.mp hi with hi | hi
        · exact hno i hi
        · have hk := (Prod.mk.inj <| List.mem_singleton.mp hi).right
          have hlt := (List.getElem?_eq_some_iff.mp hc).fst
          omega
    · exact .inl List.mem_cons_self

end Core

namespace Process

variable {R : Type} {ready : Nat → Bool} {s : Process R} {e : ProcessEvent R} {es : List (ProcessEvent R)}
  {n k : Nat}

def isDrain : ProcessEvent R → Bool
  | .drain => true
  | _      => false

def drains (es : List (ProcessEvent R)) : Nat :=
  es.countP isDrain

-- Whether a frame is written while the stream keeps draining, whatever else happens.
def EventuallyWritten (ready : Nat → Bool) (s : Process R) (n : Nat) : Prop :=
  ∀ es, s.outbox.pending.length ≤ drains es → ∃ f, (n, f) ∈ (s.run ready es).outbox.written

-- The calls whose frame has not been queued have been rejected, and the frames that report on workers
-- and on the end of the process are written in the end.
structure Prompt (ready : Nat → Bool) (s : Process R) : Prop where
  calls     : s.core.Rejects s.queued
  lifecycle : ∀ n ∈ s.lifecycle, s.EventuallyWritten ready n

-- The frame of an admitted call and the frames of the lifecycle find room.
def Roomy (s : Process R) : ProcessEvent R → Prop
  | .submit params now       => s.core.admission params now = none → s.outbox.pending.length < maxPending
  | .submitOpaque params now => s.core.admission params now = none → s.takesData
  | .workerReady _           => s.outbox.pending.length < maxPending
  | .workerExit _            => s.outbox.pending.length < maxPending
  | .terminateAck            => s.outbox.pending.length < maxPending
  | _                        => True

structure Sound (s : Process R) : Prop where
  outbox    : s.outbox.Sound
  queued    : ∀ k ∈ s.queued, k < s.core.calls.length
  lifecycle : ∀ n ∈ s.lifecycle, n < s.outbox.pushed

section Outbox

-- What a step does to the outbox.
theorem step_outbox (ready : Nat → Bool) (s : Process R) (e : ProcessEvent R) :
    (isDrain e = false ∧ ((s.step ready e).outbox = s.outbox ∨
      ∃ f, (s.step ready e).outbox = s.outbox.push ready f)) ∨
    (isDrain e ∧ (s.step ready e).outbox = s.outbox.drain ready) := by
  cases e
  case submit =>
    refine .inl ⟨rfl, ?_⟩
    simp only [step, submit]
    split
    · exact .inl rfl
    · exact .inr ⟨_, rfl⟩
  case submitOpaque =>
    refine .inl ⟨rfl, ?_⟩
    simp only [step, submitOpaque]
    split
    · exact .inl rfl
    · split <;> exact .inl rfl
  case core         => exact .inl ⟨rfl, .inl rfl⟩
  case workerReady  => exact .inl ⟨rfl, .inr ⟨_, rfl⟩⟩
  case workerExit   => exact .inl ⟨rfl, .inr ⟨_, rfl⟩⟩
  case terminateAck => exact .inl ⟨rfl, .inr ⟨_, rfl⟩⟩
  case other        => exact .inl ⟨rfl, .inr ⟨_, rfl⟩⟩
  case drain        => exact .inr ⟨rfl, rfl⟩
  case dataWritten  => exact .inl ⟨rfl, .inl rfl⟩
  case dataClosed   => exact .inl ⟨rfl, .inl rfl⟩

theorem outbox_sound_step (h : s.outbox.Sound) : (s.step ready e).outbox.Sound := by
  rcases step_outbox ready s e with ⟨_, heq | ⟨f, heq⟩⟩ | ⟨_, heq⟩
  · rwa [heq]
  · rw [heq]
    exact h.push
  · rw [heq]
    exact h.drain

-- With enough drains, a frame that is due is written.
theorem written_of_due {x : Nat × Frame} {d : Nat} (h : s.outbox.Sound) (hd : s.outbox.Due x d)
    (hle : d ≤ drains es) : x ∈ (s.run ready es).outbox.written := by
  induction es generalizing s d
  case nil =>
    obtain rfl := Nat.le_zero.mp hle
    exact hd.written
  case cons e es ih =>
    have hs : (s.step ready e).outbox.Sound := outbox_sound_step h
    rw [drains, List.countP_cons] at hle
    rcases step_outbox ready s e with ⟨hno, hor⟩ | ⟨hyes, heq⟩
    · have hd' : (s.step ready e).outbox.Due x d := by
        rcases hor with heq | ⟨f, heq⟩
        · rwa [heq]
        · rw [heq]
          exact hd.push h
      refine ih hs hd' ?_
      simpa [hno, drains] using hle
    · have hsucc : s.outbox.Due x (d - 1 + 1) := by
        have ⟨j, hj, hlt⟩ := hd
        exact ⟨j, hj, by omega⟩
      have hd' : (s.step ready e).outbox.Due x (d - 1) := heq ▸ hsucc.drain h
      refine ih hs hd' ?_
      rw [if_pos hyes] at hle
      exact Nat.sub_le_iff_le_add.mpr hle

theorem all_step (h : s.outbox.Sound) {x : Nat × Frame} (hx : x ∈ s.outbox.all) :
    x ∈ (s.step ready e).outbox.all := by
  have hdue := ControlOutbox.due_of_mem hx
  rcases step_outbox ready s e with ⟨_, heq | ⟨f, heq⟩⟩ | ⟨_, heq⟩
  · rwa [heq]
  · have ⟨j, hj, _⟩ := (heq ▸ hdue.push h : (s.step ready e).outbox.Due x _)
    exact List.mem_of_getElem? hj
  · rwa [heq, (ControlOutbox.drain_spec ready h).left]

-- Draining writes nothing but what is pending.
theorem all_drained (h : s.outbox.Sound) (d : Nat) :
    (s.run ready (.replicate d .drain)).outbox.all = s.outbox.all := by
  induction d generalizing s
  case zero      => rfl
  case succ d ih =>
    have hs : (s.step ready .drain).outbox.Sound := outbox_sound_step h
    exact (ih hs).trans (ControlOutbox.drain_spec ready h).left

theorem eventuallyWritten_iff (h : s.outbox.Sound) :
    s.EventuallyWritten ready n ↔ ∃ f, (n, f) ∈ s.outbox.all := by
  constructor
  · intro hw
    have hcount : s.outbox.pending.length ≤
        drains (.replicate s.outbox.pending.length .drain : List (ProcessEvent R)) := by
      rw [drains, List.countP_replicate]
      simp [isDrain]
    have ⟨f, hf⟩ := hw _ hcount
    exact ⟨f, all_drained h _ ▸ List.mem_append_left _ hf⟩
  · intro ⟨f, hf⟩ es hes
    exact ⟨f, written_of_due h (ControlOutbox.due_of_mem hf) hes⟩

-- A frame finds its way into the outbox if that is not full.
theorem written_report_iff {t : Process R} {frame : Frame} (h : s.outbox.Sound)
    (hl : ∀ n ∈ s.lifecycle, s.EventuallyWritten ready n) (ht : t.outbox = s.outbox.push ready frame)
    (htl : t.lifecycle = s.outbox.pushed :: s.lifecycle) :
    (∀ n ∈ t.lifecycle, t.EventuallyWritten ready n) ↔ s.outbox.pending.length < maxPending := by
  have hs : t.outbox.Sound := ht ▸ h.push
  simp only [eventuallyWritten_iff h, eventuallyWritten_iff hs] at hl ⊢
  rw [ht, htl]
  by_cases hfull : maxPending ≤ s.outbox.pending.length
  case pos =>
    refine iff_of_false (fun hall => ?_) (Nat.not_lt.mpr hfull)
    have ⟨f, hf⟩ := hall _ List.mem_cons_self
    rw [ControlOutbox.push_full hfull] at hf
    exact absurd (h.numbers _ hf) (Nat.lt_irrefl _)
  case neg =>
    refine iff_of_true (fun n hn => ?_) (Nat.lt_of_not_le hfull)
    rw [(ControlOutbox.push_spec ready frame h hfull).left]
    cases hn
    case head    => exact ⟨frame, List.mem_append_right _ List.mem_cons_self⟩
    case tail hn =>
      have ⟨f, hf⟩ := hl n hn
      exact ⟨f, List.mem_append_left _ hf⟩

-- A step that reports nothing leaves the frames that have been reported to be written.
theorem written_step {lifecycle : List Nat} (h : s.outbox.Sound)
    (hl : ∀ n ∈ lifecycle, s.EventuallyWritten ready n) :
    ∀ n ∈ lifecycle, (s.step ready e).EventuallyWritten ready n := by
  intro n hn
  have ⟨f, hf⟩ := (eventuallyWritten_iff h).mp <| hl n hn
  exact (eventuallyWritten_iff <| outbox_sound_step h).mpr ⟨f, all_step h hf⟩

end Outbox

section Steps

theorem admit_cases (core : Core R) (params : AdmitParams) (now : Int) :
    (core.admission params now = none ∧ core.admitAndRegister params (.ok true) now = { core with
      calls    := core.calls ++ [{ params }]
      inFlight := core.inFlight ++ [(params.requestId, core.calls.length)]
    }) ∨ ∃ error c, core.admission params now = some error ∧ c.admitted = false ∧
      core.admitAndRegister params (.ok true) now = { core with calls := core.calls ++ [c] } := by
  cases ha : core.admission params now
  case none       => exact .inl ⟨rfl, by rw [Core.admitAndRegister, ha]⟩
  case some error =>
    refine .inr ⟨error, _, rfl, ?_, by rw [Core.admitAndRegister, ha]⟩
    rfl

theorem submit_of_some {params : AdmitParams} {now : Int} {error : Error R}
    (h : s.core.admission params now = some error) :
    s.submit ready params now = { s with core := s.core.admitAndRegister params (.ok true) now } := by
  rw [submit, h]

theorem submitOpaque_of_some {params : AdmitParams} {now : Int} {error : Error R}
    (h : s.core.admission params now = some error) :
    s.submitOpaque params now = { s with core := s.core.admitAndRegister params (.ok true) now } := by
  rw [submitOpaque, h]

theorem submit_of_none {params : AdmitParams} {now : Int} (h : s.core.admission params now = none) :
    s.submit ready params now =
      { { s with core := s.core.admitAndRegister params (.ok true) now }.sendControlFrame ready
          (.rpcRequest s.core.calls.length) with
        queued := if s.outbox.pending.length < maxPending then s.core.calls.length :: s.queued else
          s.queued } := by
  rw [submit, h]
  by_cases hfull : maxPending ≤ s.outbox.pending.length
  case pos => simp [hfull, Nat.not_lt.mpr hfull]
  case neg => simp [hfull, Nat.lt_of_not_le hfull]

theorem submitOpaque_of_none {params : AdmitParams} {now : Int} (h : s.core.admission params now = none) :
    s.submitOpaque params now = { s with
      core       := s.core.admitAndRegister params (.ok true) now
      dataQueued := if s.takesData then s.dataQueued + 1 else s.dataQueued
      queued     := if s.takesData then s.core.calls.length :: s.queued else s.queued
    } := by
  rw [submitOpaque, h]
  cases htakes : s.takesData
  case true  => simp
  case false => simp

-- A call is put into the list of calls, and into that of the queued ones if there is room.
theorem queued_register {core : Core R} {queued : List Nat} {c : Call R} (room : Prop) [Decidable room]
    (h : ∀ k ∈ queued, k < core.calls.length) :
    ∀ k ∈ (if room then core.calls.length :: queued else queued), k < (core.calls ++ [c]).length := by
  intro k hk
  rw [List.length_append]
  split at hk
  · cases hk
    case head    => exact Nat.lt_succ_self _
    case tail hk => exact Nat.lt_succ_of_lt <| h k hk
  · exact Nat.lt_succ_of_lt <| h k hk

theorem queued_step (h : ∀ k ∈ s.queued, k < s.core.calls.length) :
    ∀ k ∈ (s.step ready e).queued, k < (s.step ready e).core.calls.length := by
  have hsame {t : Process R} (hq : t.queued = s.queued) (hc : s.core.Evolves t.core) :
      ∀ k ∈ t.queued, k < t.core.calls.length := by
    rw [hq, hc.length]
    exact h
  cases e
  case core e he         => exact hsame rfl (Core.evolves_step he)
  case workerExit worker => exact hsame rfl (Core.evolves_step (e := .workerExit worker) rfl)
  case workerReady       => exact h
  case terminateAck      => exact h
  case other             => exact h
  case drain             => exact h
  case dataWritten       => exact h
  case dataClosed        => exact h
  case submit params now =>
    rcases admit_cases s.core params now with ⟨ha, heq⟩ | ⟨error, c, ha, _, heq⟩
    · rw [step, submit_of_none ha, heq]
      exact queued_register _ h
    · rw [step, submit_of_some ha, heq]
      exact queued_register (c := c) False h
  case submitOpaque params now =>
    rcases admit_cases s.core params now with ⟨ha, heq⟩ | ⟨error, c, ha, _, heq⟩
    · rw [step, submitOpaque_of_none ha, heq]
      exact queued_register _ h
    · rw [step, submitOpaque_of_some ha, heq]
      exact queued_register (c := c) False h

theorem lifecycle_step (hs : s.outbox.Sound) (h : ∀ n ∈ s.lifecycle, n < s.outbox.pushed) :
    ∀ n ∈ (s.step ready e).lifecycle, n < (s.step ready e).outbox.pushed := by
  have hpush {frame : Frame} : ∀ n ∈ s.lifecycle, n < (s.outbox.push ready frame).pushed := fun n hn => by
    rw [ControlOutbox.pushed_push hs]
    exact Nat.lt_succ_of_lt <| h n hn
  have hreport {frame : Frame} :
      ∀ n ∈ s.outbox.pushed :: s.lifecycle, n < (s.outbox.push ready frame).pushed := by
    intro n hn
    cases hn
    case head    => exact ControlOutbox.pushed_push hs ▸ Nat.lt_succ_self _
    case tail hn => exact hpush n hn
  cases e
  case core         => exact h
  case workerReady  => exact hreport
  case workerExit   => exact hreport
  case terminateAck => exact hreport
  case other        => exact hpush
  case drain        => exact fun n hn => (ControlOutbox.drain_spec ready hs).right.right.left ▸ h n hn
  case dataWritten  => exact h
  case dataClosed   => exact h
  case submit params now =>
    cases ha : s.core.admission params now
    case none   => exact step.eq_1 .. ▸ submit_of_none ha ▸ hpush
    case some _ => exact step.eq_1 .. ▸ submit_of_some ha ▸ h
  case submitOpaque params now =>
    cases ha : s.core.admission params now
    case none   => exact step.eq_2 .. ▸ submitOpaque_of_none ha ▸ h
    case some _ => exact step.eq_2 .. ▸ submitOpaque_of_some ha ▸ h

theorem Sound.step (h : s.Sound) : (s.step ready e).Sound where
  outbox    := outbox_sound_step h.outbox
  queued    := queued_step h.queued
  lifecycle := lifecycle_step h.outbox h.lifecycle

-- One step keeps the promise if and only if the frames that it sends find room.
theorem prompt_step_iff (hs : s.Sound) (h : s.Prompt ready) : (s.step ready e).Prompt ready ↔ s.Roomy e := by
  have hsame {t : Process R} (hq : t.queued = s.queued) (hc : s.core.Evolves t.core) :
      t.core.Rejects t.queued := hq ▸ h.calls.evolve hc
  have hwritten (hl : (s.step ready e).lifecycle = s.lifecycle) :
      ∀ n ∈ (s.step ready e).lifecycle, (s.step ready e).EventuallyWritten ready n :=
    hl ▸ written_step hs.outbox h.lifecycle
  cases e
  case core e he    => exact iff_of_true ⟨hsame rfl (Core.evolves_step he), hwritten rfl⟩ trivial
  case other        => exact iff_of_true ⟨h.calls, hwritten rfl⟩ trivial
  case drain        => exact iff_of_true ⟨h.calls, hwritten rfl⟩ trivial
  case dataWritten  => exact iff_of_true ⟨h.calls, hwritten rfl⟩ trivial
  case dataClosed   => exact iff_of_true ⟨h.calls, hwritten rfl⟩ trivial
  case workerReady worker =>
    have hiff := written_report_iff (t := s.step ready (.workerReady worker)) hs.outbox h.lifecycle rfl rfl
    exact ⟨fun hp => hiff.mp hp.lifecycle, fun hroom => ⟨h.calls, hiff.mpr hroom⟩⟩
  case terminateAck =>
    have hiff := written_report_iff (t := s.step ready .terminateAck) hs.outbox h.lifecycle rfl rfl
    exact ⟨fun hp => hiff.mp hp.lifecycle, fun hroom => ⟨h.calls, hiff.mpr hroom⟩⟩
  case workerExit worker =>
    have hiff := written_report_iff (t := s.step ready (.workerExit worker)) hs.outbox h.lifecycle rfl rfl
    have hcalls := hsame (t := s.step ready (.workerExit worker)) rfl
      (Core.evolves_step (e := .workerExit worker) rfl)
    exact ⟨fun hp => hiff.mp hp.lifecycle, fun hroom => ⟨hcalls, hiff.mpr hroom⟩⟩
  case submit params now =>
    rcases admit_cases s.core params now with ⟨ha, heq⟩ | ⟨error, c, ha, hadm, heq⟩
    · have hl := hwritten (by rw [step, submit_of_none ha]; rfl)
      have hiff := Core.rejects_register_iff params h.calls hs.queued
        (s.outbox.pending.length < maxPending)
      rw [step, submit_of_none ha, heq] at hl ⊢
      rw [Roomy, forall_prop_of_true ha]
      simp only [decide_eq_true_eq] at hiff
      exact ⟨fun hp => hiff.mp hp.calls, fun hroom => ⟨hiff.mpr hroom, hl⟩⟩
    · have hl := hwritten (by rw [step, submit_of_some ha])
      rw [step, submit_of_some ha, heq] at hl ⊢
      refine iff_of_true ⟨h.calls.refuse hadm, hl⟩ fun hnone => ?_
      cases hnone.symm.trans ha
  case submitOpaque params now =>
    rcases admit_cases s.core params now with ⟨ha, heq⟩ | ⟨error, c, ha, hadm, heq⟩
    · have hl := hwritten (by rw [step, submitOpaque_of_none ha])
      have hiff := Core.rejects_register_iff params h.calls hs.queued s.takesData
      rw [step, submitOpaque_of_none ha, heq] at hl ⊢
      rw [Roomy, forall_prop_of_true ha]
      exact ⟨fun hp => hiff.mp hp.calls, fun hroom => ⟨hiff.mpr hroom, hl⟩⟩
    · have hl := hwritten (by rw [step, submitOpaque_of_some ha])
      rw [step, submitOpaque_of_some ha, heq] at hl ⊢
      refine iff_of_true ⟨h.calls.refuse hadm, hl⟩ fun hnone => ?_
      cases hnone.symm.trans ha

-- In every state of a run each admitted call whose frame has not been queued has been rejected and has
-- left the table, and the frames of the lifecycle are written while the stream drains, if and only if
-- the frames of admitted calls and of the lifecycle find room when they are sent.
theorem prompt_throughout_iff (ready : Nat → Bool) (maxInflight : Nat) (es : List (ProcessEvent R)) :
    Runs.Throughout (step ready) (Prompt ready) { core := { maxInflight } } es ↔
      Runs.Meets (step ready) Roomy { core := { maxInflight } } es := by
  have hsound : Sound ({ core := { maxInflight } } : Process R) := ⟨⟨rfl, nofun⟩, nofun, nofun⟩
  have hprompt : Prompt ready ({ core := { maxInflight } } : Process R) := ⟨nofun, nofun⟩
  exact Runs.throughout_iff_meets (fun _ _ h => Sound.step h) (fun _ _ => prompt_step_iff) hsound hprompt

end Steps

section Sample

private def asked : AdmitParams where
  requestId      := "req-00000001"
  pluginId       := "p1"
  capabilityName := "storage.kv"
  causalChain    := []
  deadlineAt     := 30000
  worker         := { workerId := 3, workerEpoch := 1 }

-- A stream that has stalled, and what comes after a flood of log batches.
private def stalled : Nat → Bool := fun _ => false
private def flood (e : ProcessEvent Nat) : List (ProcessEvent Nat) := .replicate maxPending .other ++ [e]

-- The frame of the call is dropped, and the call waits for its deadline.
theorem dropped_call_waits :
    ¬∀ es, Runs.Throughout (step stalled) (Prompt stalled) ({} : Process Nat) es := by
  intro h
  have hcall : ((flood (.submit asked 0)).foldl (step stalled) {}).core.calls =
      [{ params := asked }] := by
    decide +kernel
  have hqueued : ((flood (.submit asked 0)).foldl (step stalled) {}).queued = [] := by
    decide +kernel
  have hcalls := (h <| flood (.submit asked 0)).last.calls 0 { params := asked }
  rw [hcall, hqueued] at hcalls
  rcases hcalls rfl rfl with hmem | ⟨⟨_, herr⟩, _⟩
  · cases hmem
  · cases herr

-- So is the acknowledgement of the end of the process.
example : ((flood .terminateAck).foldl (step stalled) ({} : Process Nat)).outbox.dropped = 1 := by
  decide +kernel

end Sample

end Process
end Forwarding
