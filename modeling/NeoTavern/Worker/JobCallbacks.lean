import NeoTavern.Worker.ScheduledJobs

namespace ScheduledJobs

variable {P C : Type}

namespace Message

def isRun (jobId : String) : Message P → Bool
  | .jobRun envelope => envelope.jobId = jobId
  | .response _ _    => false

def request? : Message P → Option Nat
  | .response request _ => some request
  | .jobRun _           => none

end Message

section Reactions

-- What the answer to a call makes of the callbacks while there is room for them.
def reaction (asked : Request P × Option C) (jobCallbacks : List (String × C)) (result : Result) :
    List (String × C) :=
  match asked, result with
  | (.register _, some callback), .registered jobId =>
    if jobId ≠ "" then Assoc.set jobCallbacks jobId callback else jobCallbacks
  | (.register _, _), _                             => jobCallbacks
  | (.cancel jobId, _), _                           => Assoc.delete jobCallbacks jobId

def Message.apply (asked : List (Request P × Option C)) (jobCallbacks : List (String × C)) :
    Message P → List (String × C)
  | .response request (.ok result) => asked[request]?.elim jobCallbacks (reaction · jobCallbacks result)
  | .response _ (.error _)         => jobCallbacks
  | .jobRun _                      => jobCallbacks

variable {call : Call P C} {jobCallbacks : List (String × C)} {result : Result}
  {asked more : List (Request P × Option C)} {messages : List (Message P)}

theorem Call.then_eq_ok
    (h : call.onRun.isSome → ∀ jobId, result = .registered jobId → jobCallbacks.length < jobsMaxPerPlugin) :
    call.then jobCallbacks result = .ok (reaction (call.request, call.onRun) jobCallbacks result) := by
  have ⟨request, onRun, _, _⟩ := call
  cases request
  case cancel jobId  => cases result <;> rfl
  case register args =>
    cases onRun
    case none          => cases result <;> rfl
    case some callback =>
      cases result
      case ok               => rfl
      case registered jobId =>
        have hroom : ¬jobCallbacks.length ≥ jobsMaxPerPlugin := Nat.not_le.mpr <| h rfl jobId rfl
        simp only [Call.then, reaction, bind, if_neg hroom]
        split <;> rfl

theorem foldl_apply_append (h : ∀ request result, .response request result ∈ messages → request < asked.length) :
    messages.foldl (Message.apply (asked ++ more)) jobCallbacks =
      messages.foldl (Message.apply asked) jobCallbacks := by
  apply List.foldl_ext
  intro table m hm
  cases m
  case jobRun envelope         => rfl
  case response request result =>
    cases result
    case error e  => rfl
    case ok value =>
      rw [Message.apply, Message.apply, List.getElem?_append_left <| h request _ hm]

end Reactions

namespace System

variable (s : System P C)

def asked : List (Request P × Option C) :=
  s.calls.map fun call => (call.request, call.onRun)

-- The callbacks once the messages have arrived.
def after (messages : List (Message P)) : List (String × C) :=
  messages.foldl (Message.apply s.asked) s.jobCallbacks

-- How often a job has fired.
def fired (jobId : String) : Nat :=
  s.inbox.countP (·.isRun jobId) + s.runs.countP (·.fst.jobId = jobId)

-- A job has a timer that is going to go off.
def Armed (jobId : String) : Prop :=
  ∃ job timer, Assoc.get s.host.jobs jobId = some job ∧ job.timer = some timer

-- The host has cancelled a job, and the answer is among the messages.
def Cancelling (messages : List (Message P)) (jobId : String) : Prop :=
  ∃ request onRun, .response request (.ok .ok) ∈ messages ∧ s.asked[request]? = some (.cancel jobId, onRun)

-- A job is still there, or its only run or the answer to a cancel is among the messages.
def Grounded (messages : List (Message P)) (jobId : String) : Prop :=
  (Assoc.get s.host.jobs jobId).isSome ∨
  (∃ envelope, .jobRun envelope ∈ messages ∧ envelope.jobId = jobId ∧
    ∃ r ∈ s.registered, r.jobId = jobId ∧ r.intervalMs = none) ∨
  s.Cancelling messages jobId

-- No job that repeats goes off a second time, no run of one that is to fire once reaches its callback
-- unless the job has been cancelled since, and no answer with a callback finds the table full.
def Regular (s : System P C) : Event P C → Prop
  | .fire jobId => ∀ job timer, s.host.due jobId = some (job, timer) → ∃ due, timer = .first due
  | .deliver    =>
    match s.inbox with
    | .jobRun envelope :: inbox                         =>
      ∀ r ∈ s.registered, r.jobId = envelope.jobId → r.intervalMs = none → r.onRun.isSome →
        s.Cancelling inbox r.jobId
    | .response request (.ok (.registered _)) :: _ =>
      ∀ call, s.calls[request]? = some call → call.onRun.isSome → s.jobCallbacks.length < jobsMaxPerPlugin
    | _                                                 => True
  | _           => True

structure Lawful : Prop where
  repeats   : ∀ r ∈ s.registered, ∀ interval, r.intervalMs = some interval → r.cancelled = false →
    s.Armed r.jobId ∧ r.since + s.fired r.jobId * interval ≤ s.host.now ∧
      s.host.now ≤ r.since + (s.fired r.jobId + 1) * interval
  once      : ∀ r ∈ s.registered, r.intervalMs = none → s.fired r.jobId ≤ 1 ∧ (r.cancelled = false →
    (s.host.now < r.since + r.delayMs → s.fired r.jobId = 0) ∧
    (r.since + r.delayMs < s.host.now → s.fired r.jobId = 1))
  rejected  : ∀ r ∈ s.registered, ∀ call, s.calls[r.call]? = some call → ∀ error,
    call.settled = some (.error error) → Assoc.get s.host.jobs r.jobId = none
  invoked   : ∀ run ∈ s.runs, ∀ r ∈ s.registered, r.jobId = run.fst.jobId → run.snd = r.onRun
  callbacks : ∀ e ∈ s.jobCallbacks,
    s.Armed e.fst ∨ (∃ m ∈ s.inbox, m.isRun e.fst) ∨ s.Cancelling s.inbox e.fst

-- What is on its way to the worker answers calls that wait for it.
structure Transport : Prop where
  pending : ∀ request result, .response request result ∈ s.inbox →
    ∃ call, s.calls[request]? = some call ∧ call.taken = true ∧ call.settled = none
  nodup   : (s.inbox.filterMap Message.request?).Nodup
  waiting : ∀ call ∈ s.calls, call.taken = false → call.settled = none

structure Bindings : Prop where
  known   : ∀ jobId, (Assoc.get (s.after s.inbox) jobId).isSome → ∃ r ∈ s.registered, r.jobId = jobId
  live    : ∀ r ∈ s.registered, (Assoc.get s.host.jobs r.jobId).isSome →
    Assoc.get (s.after s.inbox) r.jobId = r.onRun
  runs    : ∀ pre envelope post, s.inbox = pre ++ .jobRun envelope :: post →
    ∀ r ∈ s.registered, r.jobId = envelope.jobId → Assoc.get (s.after pre) r.jobId = r.onRun
  invoked : ∀ run ∈ s.runs, ∀ r ∈ s.registered, r.jobId = run.fst.jobId → run.snd = r.onRun
  table   : ∀ jobId, (Assoc.get s.jobCallbacks jobId).isSome → s.Grounded s.inbox jobId
  binds   : ∀ pre request jobId post, s.inbox = pre ++ .response request (.ok (.registered jobId)) :: post →
    s.Grounded post jobId

def Accepted : Prop :=
  ∀ r ∈ s.registered, .response r.call (.ok (.registered r.jobId)) ∈ s.inbox ∨
    ∃ call, s.calls[r.call]? = some call ∧ call.settled = some (.ok (.registered r.jobId))

structure Inv (pluginId : String) : Prop where
  transport : s.Transport
  timing    : Timing pluginId s.host s.registered s.fired
  bindings  : s.Bindings
  accepted  : s.Accepted

variable {s}

theorem asked_modify {request : Nat} {f : Call P C → Call P C}
    (hf : ∀ call, ((f call).request, (f call).onRun) = (call.request, call.onRun)) :
    (s.calls.modify request f).map (fun call => (call.request, call.onRun)) = s.asked := by
  rw [asked]
  apply List.ext_getElem?
  intro i
  rw [List.getElem?_map, List.getElem?_map, List.getElem?_modify, Option.map_eq_map, Option.map_map]
  congr 1
  funext call
  dsimp only [Function.comp]
  split
  case isTrue  => exact hf call
  case isFalse => rfl

variable {request : Nat} {result : Except BrokerError Result}

theorem asked_answer : (s.answer request result).asked = s.asked :=
  asked_modify fun _ => rfl

theorem asked_settle : (s.settle request result).asked = s.asked :=
  asked_modify fun _ => rfl

theorem Grounded.mono {s' : System P C} {messages messages' : List (Message P)} {jobId : String}
    (h : s.Grounded messages jobId)
    (hjobs : (Assoc.get s.host.jobs jobId).isSome → (Assoc.get s'.host.jobs jobId).isSome)
    (hregistered : ∀ r ∈ s.registered, ∃ r' ∈ s'.registered, r'.jobId = r.jobId ∧ r'.intervalMs = r.intervalMs)
    (hasked : s.asked <+: s'.asked) (hmessages : messages ⊆ messages') : s'.Grounded messages' jobId := by
  rcases h with hhost | hrun | hcancel
  · exact .inl <| hjobs hhost
  · have ⟨envelope, hmem, hid, r, hr, hjob, hsingle⟩ := hrun
    have ⟨r', hr', hjob', hinterval⟩ := hregistered r hr
    exact .inr <| .inl ⟨envelope, hmessages hmem, hid, r', hr', hjob'.trans hjob, hinterval.trans hsingle⟩
  · have ⟨request, onRun, hmem, hget⟩ := hcancel
    have ⟨more, heq⟩ := hasked
    have ⟨hlt, _⟩ := List.getElem?_eq_some_iff.mp hget
    refine .inr <| .inr ⟨request, onRun, hmessages hmem, ?_⟩
    rw [← heq, List.getElem?_append_left hlt]
    exact hget

namespace Transport

variable {call : Call P C} {rest : List (Message P)}

theorem submit (h : s.Transport) {error : Option BrokerError} : (s.submit call error).Transport where
  pending request result hm := by
    have ⟨call', hcall, hflags⟩ := h.pending request result hm
    have ⟨hlt, _⟩ := List.getElem?_eq_some_iff.mp hcall
    refine ⟨call', ?_, hflags⟩
    rw [System.submit, List.getElem?_append_left hlt]
    exact hcall
  nodup              := h.nodup
  waiting call' hmem := by
    cases List.mem_append.mp hmem
    case inl hmem => exact h.waiting call' hmem
    case inr hmem =>
      rw [List.mem_singleton.mp hmem]
      cases error
      case none   => exact fun _ => rfl
      case some e => nofun

-- An answer is given to a call that has not been taken up.
theorem answer (h : s.Transport) (hcall : s.calls[request]? = some call) (htaken : call.taken = false) :
    (s.answer request result).Transport := by
  have hsettled := h.waiting call (List.mem_of_getElem? hcall) htaken
  constructor
  case pending =>
    intro request' result' hm
    rw [System.answer, List.getElem?_modify]
    cases List.mem_append.mp hm
    case inl hm =>
      have ⟨call', hcall', htaken', hsettled'⟩ := h.pending request' result' hm
      rw [hcall']
      refine ⟨_, rfl, ?_⟩
      split
      case isTrue  => exact ⟨rfl, hsettled'⟩
      case isFalse => exact ⟨htaken', hsettled'⟩
    case inr hm =>
      cases List.mem_singleton.mp hm
      rw [hcall]
      refine ⟨_, rfl, ?_⟩
      simp [hsettled]
  case nodup =>
    rw [System.answer, List.filterMap_append, List.nodup_append]
    refine ⟨h.nodup, List.nodup_singleton _, fun k hk k' hk' heq => ?_⟩
    have ⟨m, hm, hrequest⟩ := List.mem_filterMap.mp hk
    cases m
    case jobRun => cases hrequest
    case response request' result' =>
      cases hrequest
      cases List.mem_singleton.mp hk'
      have ⟨call', hcall', htaken', _⟩ := h.pending k result' hm
      rw [heq, hcall] at hcall'
      cases hcall'
      rw [htaken] at htaken'
      cases htaken'
  case waiting =>
    intro call' hmem ht
    have ⟨i, hi⟩ := List.getElem?_of_mem hmem
    rw [System.answer, List.getElem?_modify] at hi
    have ⟨old, hold, heq⟩ := Option.map_eq_some_iff.mp hi
    rw [← heq] at ht ⊢
    split at ht
    case isTrue  => cases ht
    case isFalse hne =>
      rw [if_neg hne]
      exact h.waiting old (List.mem_of_getElem? hold) ht

theorem fire {envelope : SdkJobRunEnvelope P} (h : s.Transport) :
    { s with inbox := s.inbox ++ [Message.jobRun envelope] }.Transport where
  pending request result hm := by
    cases List.mem_append.mp hm
    case inl hm => exact h.pending request result hm
    case inr hm => cases List.mem_singleton.mp hm
  nodup                     := by
    have hlast : [Message.jobRun envelope].filterMap Message.request? = [] := rfl
    rw [List.filterMap_append, hlast, List.append_nil]
    exact h.nodup
  waiting                   := h.waiting

theorem jobRun {envelope : SdkJobRunEnvelope P} (h : s.Transport) (hinbox : s.inbox = .jobRun envelope :: rest)
    {runs : List (SdkJobRunEnvelope P × Option C)} : { s with inbox := rest, runs }.Transport where
  pending request result hm := h.pending request result <| hinbox ▸ List.mem_cons_of_mem _ hm
  nodup                     := by
    have hnodup := h.nodup
    rw [hinbox] at hnodup
    exact hnodup
  waiting                   := h.waiting

theorem response (h : s.Transport) (hinbox : s.inbox = .response request result :: rest)
    {settled : Except BrokerError Result} : { s.settle request settled with inbox := rest }.Transport := by
  have hnodup := h.nodup
  have hrequest : (Message.response request result : Message P).request? = some request := rfl
  rw [hinbox, List.filterMap_cons_some hrequest, List.nodup_cons] at hnodup
  constructor
  case nodup   => exact hnodup.right
  case pending =>
    intro request' result' hm
    have ⟨call', hcall', hflags⟩ := h.pending request' result' <| hinbox ▸ List.mem_cons_of_mem _ hm
    have hne : request ≠ request' := by
      intro heq
      exact hnodup.left <| List.mem_filterMap.mpr ⟨_, hm, congrArg some heq.symm⟩
    refine ⟨call', ?_, hflags⟩
    dsimp only [settle]
    rw [List.getElem?_modify_ne _ _ hne]
    exact hcall'
  case waiting =>
    intro call' hmem ht
    have ⟨i, hi⟩ := List.getElem?_of_mem hmem
    dsimp only [settle] at hi
    rw [List.getElem?_modify] at hi
    have ⟨old, hold, heq⟩ := Option.map_eq_some_iff.mp hi
    have hmem' := List.mem_of_getElem? hold
    rw [← heq] at ht ⊢
    split at ht
    case isFalse hne =>
      rw [if_neg hne]
      exact h.waiting old hmem' ht
    case isTrue heq' =>
      -- The call that is answered has been taken up.
      have ⟨call, hcall, htaken, _⟩ := h.pending request result <| hinbox ▸ List.mem_cons_self
      rw [heq', hold] at hcall
      cases hcall
      rw [htaken] at ht
      cases ht

end Transport

end System

end ScheduledJobs

namespace ScheduledJobs.System

variable {P C : Type} {s s' : System P C} {m : Message P} {rest : List (Message P)} {call : Call P C}
  {request : Nat} {jobId : String} {pluginId : String}

theorem lt_of_pending (h : s.Transport) {result : Except BrokerError Result}
    (hm : .response request result ∈ s.inbox) : request < s.asked.length := by
  have ⟨call, hcall, _⟩ := h.pending request result hm
  rw [asked, List.length_map]
  exact (List.getElem?_eq_some_iff.mp hcall).fst

theorem asked_submit {error : Option BrokerError} :
    (s.submit call error).asked = s.asked ++ [(call.request, call.onRun)] := by
  rw [asked, submit, List.map_append]
  rfl

theorem after_submit {error : Option BrokerError} {messages : List (Message P)} (h : s.Transport)
    (hsub : messages ⊆ s.inbox) : (s.submit call error).after messages = s.after messages := by
  rw [after, asked_submit]
  exact foldl_apply_append fun request result hm => lt_of_pending h <| hsub hm

namespace Bindings

theorem submit {error : Option BrokerError} (h : s.Bindings) (ht : s.Transport) : (s.submit call error).Bindings := by
  have hgrounded (messages : List (Message P)) (jobId : String) (hg : s.Grounded messages jobId) :
      (s.submit call error).Grounded messages jobId := by
    have hprefix : s.asked <+: (s.submit call error).asked := by
      rw [asked_submit]
      exact List.prefix_append _ _
    exact hg.mono id (fun r hr => ⟨r, hr, rfl, rfl⟩) hprefix (List.Subset.refl _)
  have hafter : (s.submit call error).after (s.submit call error).inbox = s.after s.inbox :=
    after_submit ht <| List.Subset.refl _
  constructor
  case known   =>
    rw [hafter]
    exact h.known
  case live    =>
    rw [hafter]
    exact h.live
  case invoked => exact h.invoked
  case table   => exact fun jobId hsome => hgrounded _ _ <| h.table jobId hsome
  case binds   => exact fun pre request jobId post heq => hgrounded _ _ <| h.binds pre request jobId post heq
  case runs    =>
    intro pre envelope post heq
    have hinbox : s.inbox = pre ++ .jobRun envelope :: post := heq
    rw [after_submit ht <| hinbox ▸ List.subset_append_left _ _]
    exact h.runs pre envelope post heq

-- The host has sent one more message.
theorem append (h : s.Bindings) (hinbox : s'.inbox = s.inbox ++ [m]) (hasked : s'.asked = s.asked)
    (htable : s'.jobCallbacks = s.jobCallbacks) (hruns : s'.runs = s.runs)
    (hold : ∀ r' ∈ s'.registered,
      (∃ r ∈ s.registered, r.jobId = r'.jobId ∧ r.onRun = r'.onRun) ∨ s.fired r'.jobId = 0)
    (hgrounded : ∀ messages jobId, s.Grounded messages jobId → s'.Grounded (messages ++ [m]) jobId)
    (hknown : ∀ jobId, (Assoc.get (m.apply s.asked (s.after s.inbox)) jobId).isSome →
      ∃ r ∈ s'.registered, r.jobId = jobId)
    (hlive : ∀ r ∈ s'.registered, (Assoc.get s'.host.jobs r.jobId).isSome →
      Assoc.get (m.apply s.asked (s.after s.inbox)) r.jobId = r.onRun)
    (hrun : ∀ envelope, m = .jobRun envelope → ∀ r ∈ s'.registered, r.jobId = envelope.jobId →
      Assoc.get (s.after s.inbox) r.jobId = r.onRun)
    (hbind : ∀ request jobId, m = .response request (.ok (.registered jobId)) → s'.Grounded [] jobId) :
    s'.Bindings := by
  have hafter (messages : List (Message P)) : s'.after messages = s.after messages := by
    rw [after, after, hasked, htable]
  have hlast : s'.after s'.inbox = m.apply s.asked (s.after s.inbox) := by
    rw [hafter, hinbox, after, List.foldl_append]
    rfl
  constructor
  case known   =>
    rw [hlast]
    exact hknown
  case live    =>
    rw [hlast]
    exact hlive
  case invoked =>
    intro run hmem r' hr' heq
    rw [hruns] at hmem
    cases hold r' hr'
    case inl hsame =>
      have ⟨r, hr, hid, honRun⟩ := hsame
      rw [← honRun]
      exact h.invoked run hmem r hr <| hid.trans heq
    case inr hnone =>
      have hpos : 0 < s.runs.countP (·.fst.jobId = r'.jobId) := by
        apply List.countP_pos_iff.mpr
        exact ⟨run, hmem, by simp [heq]⟩
      rw [fired] at hnone
      omega
  case table   =>
    intro jobId hsome
    rw [htable] at hsome
    rw [hinbox]
    exact hgrounded _ _ <| h.table jobId hsome
  case binds   =>
    intro pre request jobId post heq
    rw [hinbox] at heq
    cases Lists.concat_eq_append_cons heq
    case inl hnew =>
      have ⟨_, hm, hpost⟩ := hnew
      rw [hpost]
      exact hbind request jobId hm
    case inr hearlier =>
      have ⟨post', hsplit, hpost⟩ := hearlier
      rw [hpost]
      exact hgrounded _ _ <| h.binds pre request jobId post' hsplit
  case runs    =>
    intro pre envelope post heq r' hr' hid
    rw [hinbox] at heq
    rw [hafter]
    cases Lists.concat_eq_append_cons heq
    case inl hnew =>
      have ⟨hpre, hm, _⟩ := hnew
      rw [← hpre]
      exact hrun envelope hm r' hr' hid
    case inr hearlier =>
      have ⟨post', hsplit, _⟩ := hearlier
      cases hold r' hr'
      case inl hsame =>
        have ⟨r, hr, hid', honRun⟩ := hsame
        rw [← honRun, ← hid']
        exact h.runs pre envelope post' hsplit r hr <| hid'.trans hid
      case inr hnone =>
        have hpos : 0 < s.inbox.countP (·.isRun r'.jobId) := by
          apply List.countP_pos_iff.mpr
          exact ⟨.jobRun envelope, by simp [hsplit], by simp [Message.isRun, hid]⟩
        rw [fired] at hnone
        omega

-- The worker has taken the first message.
theorem arrive (h : s.Bindings) (hinbox : s.inbox = m :: rest) (hinbox' : s'.inbox = rest)
    (hasked : s'.asked = s.asked) (hhost : s'.host = s.host) (hregistered : s'.registered = s.registered)
    (htable : s'.jobCallbacks = m.apply s.asked s.jobCallbacks)
    (hgrounded : ∀ jobId, (Assoc.get s'.jobCallbacks jobId).isSome → s.Grounded rest jobId)
    (hinvoked : ∀ run ∈ s'.runs, ∀ r ∈ s.registered, r.jobId = run.fst.jobId → run.snd = r.onRun) :
    s'.Bindings := by
  have hafter (messages : List (Message P)) : s'.after messages = s.after (m :: messages) := by
    rw [after, after, hasked, htable]
    rfl
  have hsame (messages : List (Message P)) (jobId : String) (hg : s.Grounded messages jobId) :
      s'.Grounded messages jobId := by
    apply hg.mono (by rw [hhost]; exact id) _ (by rw [hasked]) (List.Subset.refl _)
    intro r hr
    exact ⟨r, by rwa [hregistered], rfl, rfl⟩
  constructor
  case known   =>
    rw [hafter, hinbox', ← hinbox, hregistered]
    exact h.known
  case live    =>
    rw [hafter, hinbox', ← hinbox, hregistered, hhost]
    exact h.live
  case invoked =>
    rw [hregistered]
    exact hinvoked
  case table   =>
    intro jobId hsome
    rw [hinbox']
    exact hsame _ _ <| hgrounded jobId hsome
  case binds   =>
    intro pre request jobId post heq
    rw [hinbox'] at heq
    exact hsame _ _ <| h.binds (m :: pre) request jobId post <| by rw [hinbox, heq, List.cons_append]
  case runs    =>
    intro pre envelope post heq
    rw [hinbox'] at heq
    rw [hafter, hregistered]
    exact h.runs (m :: pre) envelope post <| by rw [hinbox, heq, List.cons_append]

theorem refused (h : s.Bindings) {error : BrokerError} : (s.answer request (.error error)).Bindings := by
  refine h.append rfl asked_answer rfl rfl ?_ ?_ h.known h.live nofun nofun
  case refine_1 => exact fun r hr => .inl ⟨r, hr, rfl, rfl⟩
  case refine_2 =>
    intro messages jobId hg
    have hprefix : s.asked <+: (s.answer request (.error error)).asked := by rw [asked_answer]
    exact hg.mono id (fun r hr => ⟨r, hr, rfl, rfl⟩) hprefix (List.subset_append_left _ _)

theorem apply_of_asked {jobCallbacks : List (String × C)} {result : Result} (hcall : s.calls[request]? = some call) :
    Message.apply s.asked jobCallbacks (.response request (.ok result)) =
      reaction (call.request, call.onRun) jobCallbacks result := by
  rw [Message.apply, asked, List.getElem?_map, hcall]
  rfl

-- The callback of a call is bound to the id that the host has given.
theorem get_reaction_self {args : SdkJobsRegisterArgs P} {onRun : Option C} {jobCallbacks : List (String × C)}
    (hne : jobId ≠ "") (hnone : Assoc.get jobCallbacks jobId = none) :
    Assoc.get (reaction (.register args, onRun) jobCallbacks (.registered jobId)) jobId = onRun := by
  cases onRun
  case none          => exact hnone
  case some callback =>
    rw [reaction, if_pos hne]
    exact Assoc.get_set_self

theorem get_reaction_of_ne {args : SdkJobsRegisterArgs P} {onRun : Option C} {jobCallbacks : List (String × C)}
    {k : String} (hne : k ≠ jobId) :
    Assoc.get (reaction (.register args, onRun) jobCallbacks (.registered jobId)) k = Assoc.get jobCallbacks k := by
  cases onRun
  case none          => rfl
  case some callback =>
    rw [reaction]
    split
    case isTrue  => exact Assoc.get_set_of_ne hne
    case isFalse => rfl

theorem register {args : SdkJobsRegisterArgs P} {r : Registration C} (h : s.Bindings)
    (t : Timing pluginId s.host s.registered s.fired) (hcall : s.calls[request]? = some call)
    (hrequest : call.request = .register args) (hid : r.jobId = Host.jobId pluginId (s.host.jobSeq + 1))
    (hne : r.jobId ≠ "") (honRun : r.onRun = call.onRun) :
    { s.answer request (.ok (.registered r.jobId)) with
      host       := s.host.register pluginId args
      registered := s.registered ++ [r] }.Bindings := by
  have hfresh : s.fired r.jobId = 0 := by
    by_contra hfired
    obtain ⟨r', hr', heq⟩ := t.fires _ hfired
    exact t.fresh hr' <| heq.trans hid
  have happly : Message.apply s.asked (s.after s.inbox) (.response request (.ok (.registered r.jobId))) =
      reaction (.register args, call.onRun) (s.after s.inbox) (.registered r.jobId) := by
    rw [apply_of_asked hcall, hrequest]
  have hunknown : Assoc.get (s.after s.inbox) r.jobId = none := by
    by_contra hsome
    obtain ⟨r', hr', heq⟩ := h.known r.jobId <| Option.isSome_iff_ne_none.mpr hsome
    exact t.fresh hr' <| heq.trans hid
  have hhost : (Assoc.get (s.host.register pluginId args).jobs r.jobId).isSome := by
    rw [hid, Host.register, Assoc.get_set_self]
    rfl
  have hasked : (s.answer request (.ok (.registered r.jobId))).asked = s.asked := asked_answer
  refine h.append rfl hasked rfl rfl ?_ ?_ ?_ ?_ (by simp) ?_
  case refine_1 =>
    intro r' hr'
    cases List.mem_append.mp hr'
    case inl hr' => exact .inl ⟨r', hr', rfl, rfl⟩
    case inr hr' =>
      rw [List.mem_singleton.mp hr']
      exact .inr hfresh
  case refine_2 =>
    intro messages jobId hg
    refine hg.mono ?_ (fun r' hr' => ⟨r', List.mem_append_left _ hr', rfl, rfl⟩) ?_ (List.subset_append_left _ _)
    case refine_1 =>
      intro hsome
      by_cases heq : jobId = r.jobId
      case pos =>
        rw [heq]
        exact hhost
      case neg =>
        rw [hid] at heq
        dsimp only
        rw [Host.register, Assoc.get_set_of_ne heq]
        exact hsome
    case refine_2 => exact hasked.symm ▸ List.prefix_refl _
  case refine_3 =>
    intro jobId hsome
    by_cases heq : jobId = r.jobId
    case pos => exact ⟨r, List.mem_append_right _ <| List.mem_singleton_self _, heq.symm⟩
    case neg =>
      rw [happly, get_reaction_of_ne heq] at hsome
      obtain ⟨r', hr', heq'⟩ := h.known jobId hsome
      exact ⟨r', List.mem_append_left _ hr', heq'⟩
  case refine_4 =>
    intro r' hr' hsome
    rw [happly]
    cases List.mem_append.mp hr'
    case inr hr' =>
      rw [List.mem_singleton.mp hr', honRun]
      exact get_reaction_self hne hunknown
    case inl hr' =>
      have hother := t.fresh hr'
      dsimp only at hsome
      rw [Host.register, Assoc.get_set_of_ne hother] at hsome
      rw [get_reaction_of_ne (hid ▸ hother)]
      exact h.live r' hr' hsome
  case refine_5 =>
    intro request' jobId heq
    cases heq
    exact .inl hhost

theorem cancelling_onRun {r : Registration C} : (r.cancelling jobId).onRun = r.onRun := by
  rw [Registration.cancelling]
  split <;> rfl

theorem cancel (h : s.Bindings) (t : Timing pluginId s.host s.registered s.fired)
    (hcall : s.calls[request]? = some call) (hrequest : call.request = .cancel jobId) :
    { s.answer request (.ok .ok) with
      host       := s.host.cancel pluginId jobId
      registered := s.registered.map fun r : Registration C => r.cancelling jobId }.Bindings := by
  have hasked : (s.answer request (.ok .ok)).asked = s.asked := asked_answer
  have happly : Message.apply s.asked (s.after s.inbox) (.response request (.ok .ok)) =
      Assoc.delete (s.after s.inbox) jobId := by
    rw [apply_of_asked hcall, hrequest]
    rfl
  refine h.append rfl hasked rfl rfl ?_ ?_ ?_ ?_ nofun nofun
  case refine_1 =>
    intro r' hr'
    have ⟨r, hr, heq⟩ := List.mem_map.mp hr'
    exact .inl ⟨r, hr, by rw [← heq, Timing.cancelling_jobId], by rw [← heq, cancelling_onRun]⟩
  case refine_2 =>
    intro messages k hg
    by_cases heq : k = jobId
    case pos =>
      refine .inr <| .inr ⟨request, call.onRun, List.mem_concat_self .., ?_⟩
      have hget : s.asked[request]? = some (.cancel k, call.onRun) := by
        rw [asked, List.getElem?_map, hcall, heq, ← hrequest]
        rfl
      exact hasked ▸ hget
    case neg =>
      refine hg.mono ?_ ?_ (hasked.symm ▸ List.prefix_refl _) (List.subset_append_left _ _)
      case refine_1 =>
        dsimp only
        rw [t.get_cancel, if_neg heq]
        exact id
      case refine_2 =>
        exact fun r hr => ⟨_, List.mem_map_of_mem hr, Timing.cancelling_jobId, Timing.cancelling_intervalMs⟩
  case refine_3 =>
    intro k hsome
    rw [happly] at hsome
    by_cases heq : k = jobId
    case pos =>
      rw [heq, Assoc.get_delete_self] at hsome
      cases hsome
    case neg =>
      rw [Assoc.get_delete_of_ne heq] at hsome
      have ⟨r, hr, heq'⟩ := h.known k hsome
      exact ⟨_, List.mem_map_of_mem hr, Timing.cancelling_jobId.trans heq'⟩
  case refine_4 =>
    intro r' hr' hsome
    have ⟨r, hr, heq⟩ := List.mem_map.mp hr'
    rw [← heq, Timing.cancelling_jobId] at hsome ⊢
    dsimp only at hsome
    rw [t.get_cancel] at hsome
    split at hsome
    case isTrue      => cases hsome
    case isFalse hne =>
      rw [happly, Assoc.get_delete_of_ne hne, cancelling_onRun]
      exact h.live r hr hsome

theorem fire {job : ScheduledJob P} {d : Nat} (h : s.Bindings) (t : Timing pluginId s.host s.registered s.fired)
    (hdue : s.host.due jobId = some (job, .first d)) :
    { s with
      host  := s.host.elapsed jobId job (.first d)
      inbox := s.inbox ++ [Message.jobRun (s.host.fireJob jobId job)] }.Bindings := by
  have ⟨hjob, _, _⟩ := Timing.due_eq_some hdue
  have hsome : (Assoc.get s.host.jobs jobId).isSome := by
    rw [hjob]
    rfl
  refine h.append rfl rfl rfl rfl (fun r hr => .inl ⟨r, hr, rfl, rfl⟩) ?_ h.known ?_ ?_ ?_
  case refine_4 => exact fun _ _ heq => by cases heq
  case refine_1 =>
    intro messages k hg
    by_cases heq : k = jobId
    case neg =>
      refine hg.mono ?_ (fun r hr => ⟨r, hr, rfl, rfl⟩) (List.prefix_refl _) (List.subset_append_left _ _)
      dsimp only
      rw [Timing.get_elapsed_of_ne heq]
      exact id
    case pos =>
      have ⟨_, r, hr, hid⟩ := t.owners jobId job hjob
      rw [heq]
      cases hinterval : job.intervalMs
      case some interval =>
        refine .inl ?_
        dsimp only
        rw [Timing.get_elapsed_first, hinterval]
        rfl
      case none          =>
        refine .inr <| .inl ⟨_, List.mem_concat_self .., rfl, r, hr, hid, ?_⟩
        rw [← t.intervalMs_eq hr (hid.symm ▸ hjob), hinterval]
  case refine_2 =>
    intro r hr hhere
    dsimp only at hhere
    by_cases heq : r.jobId = jobId
    case pos => exact h.live r hr <| heq.symm ▸ hsome
    case neg =>
      rw [Timing.get_elapsed_of_ne heq] at hhere
      exact h.live r hr hhere
  case refine_3 =>
    intro envelope hm r hr hid
    cases hm
    exact h.live r hr <| hid.symm ▸ hsome

theorem tick (h : s.Bindings) : { s with host := s.host.tick }.Bindings := by
  have hjobs : s.host.tick.jobs = s.host.jobs := by
    rw [Host.tick]
    split <;> rfl
  have hgrounded (messages : List (Message P)) (jobId : String) (hg : s.Grounded messages jobId) :
      { s with host := s.host.tick }.Grounded messages jobId :=
    hg.mono (by rw [hjobs]; exact id) (fun r hr => ⟨r, hr, rfl, rfl⟩) (List.prefix_refl _) (List.Subset.refl _)
  exact {
    known   := h.known
    live    := fun r hr hsome => h.live r hr <| hjobs ▸ hsome
    runs    := h.runs
    invoked := h.invoked
    table   := fun jobId hsome => hgrounded _ _ <| h.table jobId hsome
    binds   := fun pre request jobId post heq => hgrounded _ _ <| h.binds pre request jobId post heq
  }

-- The first message is not what a job is grounded on.
theorem grounded_tail (hg : s.Grounded (m :: rest) jobId) (hrun : ∀ envelope, m ≠ .jobRun envelope)
    (hcancel : ∀ request onRun, m = .response request (.ok .ok) → s.asked[request]? ≠ some (.cancel jobId, onRun)) :
    s.Grounded rest jobId := by
  rcases hg with hhost | hjob | hcancelling
  · exact .inl hhost
  · have ⟨envelope, hmem, hrest⟩ := hjob
    cases List.mem_cons.mp hmem
    case inl heq  => exact absurd heq.symm <| hrun envelope
    case inr hmem => exact .inr <| .inl ⟨envelope, hmem, hrest⟩
  · have ⟨request, onRun, hmem, hget⟩ := hcancelling
    cases List.mem_cons.mp hmem
    case inl heq  => exact absurd hget <| hcancel request onRun heq.symm
    case inr hmem => exact .inr <| .inr ⟨request, onRun, hmem, hget⟩

theorem jobRun {envelope : SdkJobRunEnvelope P} (h : s.Bindings) (t : Timing pluginId s.host s.registered s.fired)
    (hinbox : s.inbox = .jobRun envelope :: rest) (hreg : s.Regular .deliver) :
    { s with inbox := rest, runs := s.runs ++ [(envelope, handleJobRun s.jobCallbacks envelope)] }.Bindings := by
  have hget (r : Registration C) (hr : r ∈ s.registered) (hid : r.jobId = envelope.jobId) :
      Assoc.get s.jobCallbacks r.jobId = r.onRun := h.runs [] envelope rest hinbox r hr hid
  refine h.arrive hinbox rfl rfl rfl rfl rfl ?_ ?_
  case refine_1 =>
    intro jobId hsome
    have hg := h.table jobId hsome
    rw [hinbox] at hg
    rcases hg with hhost | hjob | hcancelling
    · exact .inl hhost
    · have ⟨envelope', hmem, hid, r, hr, hjob, hsingle⟩ := hjob
      cases List.mem_cons.mp hmem
      case inr hmem => exact .inr <| .inl ⟨envelope', hmem, hid, r, hr, hjob, hsingle⟩
      case inl heq  =>
        cases heq
        have heq := hjob.trans hid.symm
        rw [Regular, hinbox] at hreg
        dsimp only at hsome
        rw [← hjob, hget r hr heq] at hsome
        have hcancel := hreg r hr heq hsingle hsome
        exact .inr <| .inr <| hjob ▸ hcancel
    · have ⟨request, onRun, hmem, hget⟩ := hcancelling
      cases List.mem_cons.mp hmem
      case inl heq  => cases heq
      case inr hmem => exact .inr <| .inr ⟨request, onRun, hmem, hget⟩
  case refine_2 =>
    intro run hmem r hr hid
    cases List.mem_append.mp hmem
    case inl hmem => exact h.invoked run hmem r hr hid
    case inr hmem =>
      rw [List.mem_singleton.mp hmem] at hid ⊢
      have hne : envelope.jobId ≠ "" := hid ▸ t.jobId_ne_empty hr
      dsimp only at hid ⊢
      rw [handleJobRun, if_pos hne, ← hid]
      exact hget r hr hid

theorem response {result : Except BrokerError Result} (h : s.Bindings) (hcall : s.calls[request]? = some call)
    (hinbox : s.inbox = .response request result :: rest) :
    { s.settle request result with
      inbox        := rest
      jobCallbacks := Message.apply s.asked s.jobCallbacks (.response request result) }.Bindings := by
  refine h.arrive hinbox rfl asked_settle rfl rfl rfl ?_ h.invoked
  intro jobId hsome
  dsimp only at hsome
  have hasked : s.asked[request]? = some (call.request, call.onRun) := by
    rw [asked, List.getElem?_map, hcall]
    rfl
  have htail (hkey : (Assoc.get s.jobCallbacks jobId).isSome)
      (hother : result = .ok .ok → call.request ≠ .cancel jobId) : s.Grounded rest jobId := by
    apply grounded_tail (hinbox ▸ h.table jobId hkey) fun _ heq => by cases heq
    intro request' onRun heq hget
    cases heq
    rw [hasked] at hget
    cases hrequest : call.request
    case register args => simp [hrequest] at hget
    case cancel id     =>
      simp only [hrequest, Option.some.injEq, Prod.mk.injEq, Request.cancel.injEq] at hget
      exact hother rfl <| hget.left ▸ hrequest
  cases result
  case error error => exact htail hsome nofun
  case ok value    =>
    rw [apply_of_asked hcall] at hsome
    cases hrequest : call.request
    case cancel id =>
      rw [hrequest] at hsome
      have hdelete : (Assoc.get (Assoc.delete s.jobCallbacks id) jobId).isSome := hsome
      have hne : jobId ≠ id := by
        intro heq
        rw [heq, Assoc.get_delete_self] at hdelete
        cases hdelete
      rw [Assoc.get_delete_of_ne hne] at hdelete
      refine htail hdelete fun _ heq => hne ?_
      rw [hrequest] at heq
      exact (Request.cancel.inj heq).symm
    case register args =>
      have hother : Except.ok value = .ok (ε := BrokerError) Result.ok → call.request ≠ .cancel jobId := by
        intro _ heq
        rw [hrequest] at heq
        cases heq
      rw [hrequest] at hsome
      cases value
      case ok            => exact htail (by cases hrun : call.onRun <;> simpa [reaction, hrun] using hsome) hother
      case registered id =>
        by_cases heq : jobId = id
        case pos => exact heq ▸ h.binds [] request id rest hinbox
        case neg =>
          rw [get_reaction_of_ne heq] at hsome
          exact htail hsome hother

end Bindings

end ScheduledJobs.System
