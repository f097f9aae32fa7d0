import NeoTavern.Worker.JobCallbacks

namespace ScheduledJobs.System

variable {P C : Type} {s : System P C} {rest : List (Message P)} {call : Call P C} {request : Nat}
  {jobId pluginId : String} {result : Except BrokerError Result} {jsonLength : P → Option Nat}

section Firings

theorem fired_response {m : Message P} (hm : ∀ jobId, m.isRun jobId = false) :
    { s with inbox := s.inbox ++ [m] }.fired = s.fired := by
  funext jobId
  rw [fired, fired, List.countP_append, List.countP_singleton, hm]
  rfl

theorem fired_jobRun {envelope : SdkJobRunEnvelope P} :
    { s with inbox := s.inbox ++ [Message.jobRun envelope] }.fired =
      fun jobId => if jobId = envelope.jobId then s.fired jobId + 1 else s.fired jobId := by
  funext jobId
  rw [fired, fired, List.countP_append, List.countP_singleton]
  simp only [Message.isRun, decide_eq_true_eq]
  by_cases heq : jobId = envelope.jobId
  case pos =>
    rw [if_pos heq, if_pos heq.symm]
    omega
  case neg => rw [if_neg heq, if_neg <| Ne.symm heq, Nat.add_zero]

theorem fired_arrived {envelope : SdkJobRunEnvelope P} {invoked : Option C}
    (hinbox : s.inbox = .jobRun envelope :: rest) :
    { s with inbox := rest, runs := s.runs ++ [(envelope, invoked)] }.fired = s.fired := by
  funext jobId
  rw [fired, fired, hinbox, List.countP_append, List.countP_singleton, List.countP_cons]
  have hrun : (Message.jobRun envelope).isRun jobId = decide (envelope.jobId = jobId) := rfl
  simp only [hrun, decide_eq_true_eq]
  omega

theorem fired_answered (hinbox : s.inbox = .response request result :: rest) :
    { s with inbox := rest }.fired = s.fired := by
  funext jobId
  rw [fired, fired, hinbox, List.countP_cons_of_neg (by simp [Message.isRun])]

end Firings

namespace Accepted

theorem submit {error : Option BrokerError} (h : s.Accepted) : (s.submit call error).Accepted := by
  intro r hr
  cases h r hr
  case inl hm    => exact .inl hm
  case inr hcall =>
    have ⟨call', hget, hsettled⟩ := hcall
    have ⟨hlt, _⟩ := List.getElem?_eq_some_iff.mp hget
    refine .inr ⟨call', ?_, hsettled⟩
    rw [System.submit, List.getElem?_append_left hlt]
    exact hget

theorem answer (h : s.Accepted) : (s.answer request result).Accepted := by
  intro r hr
  cases h r hr
  case inl hm    => exact .inl <| List.mem_append_left _ hm
  case inr hcall =>
    have ⟨call', hget, hsettled⟩ := hcall
    rw [System.answer, List.getElem?_modify, hget]
    refine .inr ⟨_, rfl, ?_⟩
    split
    case isTrue  => exact hsettled
    case isFalse => exact hsettled

theorem response (h : s.Accepted) (ht : s.Transport) (hinbox : s.inbox = .response request result :: rest)
    {jobCallbacks : List (String × C)} : { s.settle request result with inbox := rest, jobCallbacks }.Accepted := by
  intro r hr
  have ⟨call, hcall, _, hopen⟩ := ht.pending request result <| hinbox ▸ List.mem_cons_self
  cases h r hr
  case inl hm    =>
    rw [hinbox] at hm
    cases List.mem_cons.mp hm
    case inr hm  => exact .inl hm
    case inl heq =>
      cases heq
      refine .inr ⟨{ call with settled := some (.ok (.registered r.jobId)) }, ?_, rfl⟩
      dsimp only [settle]
      rw [List.getElem?_modify, hcall]
      simp
  case inr hsettled =>
    have ⟨call', hget, hsettled⟩ := hsettled
    have hne : request ≠ r.call := by
      intro heq
      rw [← heq, hcall] at hget
      cases hget
      rw [hopen] at hsettled
      cases hsettled
    refine .inr ⟨call', ?_, hsettled⟩
    dsimp only [settle]
    rw [List.getElem?_modify_ne _ _ hne]
    exact hget

end Accepted

-- An answer that finds room settles its call as it says.
theorem deliver_response (ht : s.Transport) (hreg : s.Regular .deliver)
    (hinbox : s.inbox = .response request result :: rest) : ∃ call, s.calls[request]? = some call ∧
    s.deliver = { s.settle request result with
      inbox        := rest
      jobCallbacks := Message.apply s.asked s.jobCallbacks (.response request result) } := by
  have ⟨call, hcall, _, hopen⟩ := ht.pending request result <| hinbox ▸ List.mem_cons_self
  refine ⟨call, hcall, ?_⟩
  have hsettled : ¬call.settled.isSome := by simp [hopen]
  rw [deliver, hinbox]
  dsimp only
  rw [handleRpcResponse]
  dsimp only
  rw [hcall]
  dsimp only
  rw [if_neg hsettled]
  cases result
  case error error => rfl
  case ok value    =>
    have hroom : call.onRun.isSome → ∀ jobId, value = .registered jobId →
        s.jobCallbacks.length < jobsMaxPerPlugin := by
      intro honRun jobId heq
      rw [Regular, hinbox, heq] at hreg
      exact hreg call hcall honRun
    dsimp only
    rw [Call.then_eq_ok hroom, Bindings.apply_of_asked hcall]
    rfl

namespace Inv

theorem empty : ({} : System P C).Inv pluginId where
  transport := ⟨fun _ _ hm => absurd hm List.not_mem_nil, List.nodup_nil, fun _ hm => absurd hm List.not_mem_nil⟩
  timing    := Timing.nil
  accepted  := fun _ hr => absurd hr List.not_mem_nil
  bindings  := {
    known   := fun _ hsome => by cases hsome
    live    := fun _ hr => absurd hr List.not_mem_nil
    runs    := fun pre _ _ heq => absurd heq.symm <| List.append_ne_nil_of_right_ne_nil pre (List.cons_ne_nil _ _)
    invoked := fun _ hm => absurd hm List.not_mem_nil
    table   := fun _ hsome => by cases hsome
    binds   := fun pre _ _ _ heq => absurd heq.symm <| List.append_ne_nil_of_right_ne_nil pre (List.cons_ne_nil _ _)
  }

theorem submit {error : Option BrokerError} (h : s.Inv pluginId) : (s.submit call error).Inv pluginId where
  transport := h.transport.submit
  timing    := h.timing
  bindings  := h.bindings.submit h.transport
  accepted  := h.accepted.submit

theorem refused {error : BrokerError} (h : s.Inv pluginId) (hcall : s.calls[request]? = some call)
    (htaken : call.taken = false) : (s.answer request (.error error)).Inv pluginId where
  transport := h.transport.answer hcall htaken
  timing    := by
    have hfired : (s.answer request (.error error)).fired = s.fired := fired_response fun _ => rfl
    rw [hfired]
    exact h.timing
  bindings  := h.bindings.refused
  accepted  := h.accepted.answer

theorem register {args : SdkJobsRegisterArgs P} (h : s.Inv pluginId) (hcall : s.calls[request]? = some call)
    (htaken : call.taken = false) (hrequest : call.request = .register args)
    (hargs : s.host.refusal pluginId args = none) {r : Registration C}
    (hr : r = {
      jobId := Host.jobId pluginId (s.host.jobSeq + 1), call := request, intervalMs := args.intervalMs
      delayMs := Host.delayMs args, since := s.host.now, onRun := call.onRun }) :
    { s.answer request (.ok (.registered r.jobId)) with
      host       := s.host.register pluginId args
      registered := s.registered ++ [r] }.Inv pluginId := by
  have hid : r.jobId = Host.jobId pluginId (s.host.jobSeq + 1) := by rw [hr]
  have hne : r.jobId ≠ "" := by
    rw [hid]
    exact Timing.jobId_ne
  have htransport : (s.answer request (.ok (.registered r.jobId))).Transport := h.transport.answer hcall htaken
  constructor
  case transport => exact ⟨htransport.pending, htransport.nodup, htransport.waiting⟩
  case timing    =>
    have hfired : (s.answer request (.ok (.registered r.jobId))).fired = s.fired := fired_response fun _ => rfl
    have htiming := h.timing.register hargs (r := r) hid (by rw [hr]) (by rw [hr]) (by rw [hr]) (by rw [hr])
    rw [← hfired] at htiming
    exact htiming
  case bindings  => exact h.bindings.register h.timing hcall hrequest hid hne (by rw [hr])
  case accepted  =>
    intro r' hr'
    cases List.mem_append.mp hr'
    case inl hr' => exact h.accepted.answer r' hr'
    case inr hr' =>
      rw [List.mem_singleton.mp hr']
      have hrcall : r.call = request := by rw [hr]
      rw [hrcall]
      exact .inl <| List.mem_concat_self ..

theorem cancel (h : s.Inv pluginId) (hcall : s.calls[request]? = some call) (htaken : call.taken = false)
    (hrequest : call.request = .cancel jobId) :
    { s.answer request (.ok .ok) with
      host       := s.host.cancel pluginId jobId
      registered := s.registered.map fun r : Registration C => r.cancelling jobId }.Inv pluginId := by
  have htransport : (s.answer request (.ok .ok)).Transport := h.transport.answer hcall htaken
  constructor
  case transport => exact ⟨htransport.pending, htransport.nodup, htransport.waiting⟩
  case bindings  => exact h.bindings.cancel h.timing hcall hrequest
  case timing    =>
    have hfired : (s.answer request (.ok .ok)).fired = s.fired := fired_response fun _ => rfl
    have htiming : Timing pluginId (s.host.cancel pluginId jobId) (s.registered.map (·.cancelling jobId)) s.fired :=
      h.timing.cancel
    rw [← hfired] at htiming
    exact htiming
  case accepted  =>
    intro r' hr'
    have ⟨r, hr, heq⟩ := List.mem_map.mp hr'
    have hrcall : (r.cancelling jobId).call = r.call := by
      rw [Registration.cancelling]
      split <;> rfl
    rw [← heq, Timing.cancelling_jobId, hrcall]
    have haccepted : (s.answer request (.ok .ok)).Accepted := h.accepted.answer
    exact haccepted r hr

theorem execute (h : s.Inv pluginId) (hcall : s.calls[request]? = some call) (htaken : call.taken = false) :
    (s.execute pluginId request call).Inv pluginId := by
  rw [System.execute]
  cases hrequest : call.request
  case register args =>
    dsimp only
    cases hargs : s.host.refusal pluginId args
    case some error => exact h.refused hcall htaken
    case none       => exact h.register hcall htaken hrequest hargs rfl
  case cancel jobId =>
    dsimp only
    split
    case isTrue  => exact h.cancel hcall htaken hrequest
    case isFalse => exact h.refused hcall htaken

theorem fire (h : s.Inv pluginId) (hreg : s.Regular (.fire jobId)) : (s.fire jobId).Inv pluginId := by
  rw [System.fire]
  cases hdue : s.host.due jobId
  case none     => exact h
  case some hit =>
    have ⟨job, timer⟩ := hit
    have ⟨d, hfirst⟩ := hreg job timer hdue
    subst hfirst
    have htransport : { s with inbox := s.inbox ++ [Message.jobRun (s.host.fireJob jobId job)] }.Transport :=
      h.transport.fire
    constructor
    case transport => exact ⟨htransport.pending, htransport.nodup, htransport.waiting⟩
    case bindings  => exact h.bindings.fire h.timing hdue
    case timing    =>
      have htiming := h.timing.fire hdue
      have hfired : { s with inbox := s.inbox ++ [Message.jobRun (s.host.fireJob jobId job)] }.fired =
          fun k => if k = jobId then s.fired k + 1 else s.fired k := fired_jobRun
      exact hfired ▸ htiming
    case accepted  =>
      intro r hr
      cases h.accepted r hr
      case inl hm    => exact .inl <| List.mem_append_left _ hm
      case inr hcall => exact .inr hcall

theorem tick (h : s.Inv pluginId) : { s with host := s.host.tick }.Inv pluginId where
  transport := ⟨h.transport.pending, h.transport.nodup, h.transport.waiting⟩
  timing    := h.timing.tick
  bindings  := h.bindings.tick
  accepted  := h.accepted

theorem jobRun {envelope : SdkJobRunEnvelope P} (h : s.Inv pluginId) (hinbox : s.inbox = .jobRun envelope :: rest)
    (hreg : s.Regular .deliver) :
    { s with
      inbox := rest
      runs  := s.runs ++ [(envelope, handleJobRun s.jobCallbacks envelope)] }.Inv pluginId where
  transport := h.transport.jobRun hinbox
  bindings  := h.bindings.jobRun h.timing hinbox hreg
  timing    := by
    rw [fired_arrived hinbox]
    exact h.timing
  accepted  := by
    intro r hr
    cases h.accepted r hr
    case inr hcall => exact .inr hcall
    case inl hm    =>
      rw [hinbox] at hm
      cases List.mem_cons.mp hm
      case inl heq => cases heq
      case inr hm  => exact .inl hm

theorem deliver (h : s.Inv pluginId) (hreg : s.Regular .deliver) : s.deliver.Inv pluginId := by
  cases hinbox : s.inbox
  case nil =>
    rw [System.deliver, hinbox]
    exact h
  case cons m rest =>
    cases m
    case jobRun envelope =>
      rw [System.deliver, hinbox]
      exact h.jobRun hinbox hreg
    case response request result =>
      have ⟨call, hcall, heq⟩ := deliver_response h.transport hreg hinbox
      rw [heq]
      have htransport : { s.settle request result with inbox := rest }.Transport := h.transport.response hinbox
      constructor
      case transport => exact ⟨htransport.pending, htransport.nodup, htransport.waiting⟩
      case bindings  => exact h.bindings.response hcall hinbox
      case accepted  => exact h.accepted.response h.transport hinbox
      case timing    =>
        have htiming := h.timing
        rw [← fired_answered hinbox] at htiming
        exact htiming

theorem step {e : Event P C} (h : s.Inv pluginId) (hreg : s.Regular e) :
    (s.step pluginId jsonLength e).Inv pluginId := by
  cases e
  case register options     => exact h.submit
  case cancel jobId         => exact h.submit
  case fire jobId           => exact h.fire hreg
  case tick                 => exact h.tick
  case deliver              => exact h.deliver hreg
  case execute request      =>
    rw [System.step]
    split
    case h_2 => exact h
    case h_1 call hcall =>
      split
      case isTrue        => exact h
      case isFalse htaken => exact h.execute hcall <| Bool.eq_false_iff.mpr htaken
  case refuse request error =>
    rw [System.step]
    split
    case h_2 => exact h
    case h_1 call hcall =>
      split
      case isTrue         => exact h
      case isFalse htaken => exact h.refused hcall <| Bool.eq_false_iff.mpr htaken

-- A job that is on the host has a timer that is going to go off.
theorem armed (h : s.Inv pluginId) (hsome : (Assoc.get s.host.jobs jobId).isSome) : s.Armed jobId := by
  have ⟨job, hjob⟩ := Option.isSome_iff_exists.mp hsome
  have ⟨_, r, hr, heq⟩ := h.timing.owners jobId job hjob
  subst heq
  cases h.timing.stands r hr
  case waiting job here timer _ _ _ _ _         => exact ⟨job, _, here, timer⟩
  case repeating job _ here timer _ _ _ _ _ _ => exact ⟨job, _, here, timer⟩
  case ended gone _ _ _                         => cases hjob.symm.trans gone
  case cancelled gone _ _                       => cases hjob.symm.trans gone

theorem lawful (h : s.Inv pluginId) : s.Lawful := by
  constructor
  case invoked   => exact h.bindings.invoked
  case repeats   =>
    intro r hr interval hinterval hkept
    have hdelay := h.timing.delays r hr interval hinterval
    cases h.timing.stands r hr
    case waiting job here timer _ _ never after before =>
      rw [never]
      exact ⟨⟨job, _, here, timer⟩, by omega, by omega⟩
    case repeating job interval' here timer _ repeats _ once after before =>
      cases hinterval.symm.trans repeats
      rw [once]
      exact ⟨⟨job, _, here, timer⟩, by omega, by omega⟩
    case ended single _ _    => cases hinterval.symm.trans single
    case cancelled given _   => cases hkept.symm.trans given
  case once      =>
    intro r hr hsingle
    cases h.timing.stands r hr
    case waiting never after before         => exact ⟨by omega, fun _ => ⟨fun _ => never, fun hlt => by omega⟩⟩
    case repeating repeats _ _ _ _          => cases hsingle.symm.trans repeats
    case ended once after                   => exact ⟨by omega, fun _ => ⟨fun hlt => by omega, fun _ => once⟩⟩
    case cancelled given bound              => exact ⟨bound, fun hkept => by cases hkept.symm.trans given⟩
  case rejected  =>
    intro r hr call hcall error hsettled
    cases h.accepted r hr
    case inl hm      =>
      have ⟨call', hcall', _, hopen⟩ := h.transport.pending _ _ hm
      cases hcall.symm.trans hcall'
      cases hsettled.symm.trans hopen
    case inr haccept =>
      have ⟨call', hcall', hok⟩ := haccept
      cases hcall.symm.trans hcall'
      cases hsettled.symm.trans hok
  case callbacks =>
    intro e he
    have hsome := Assoc.isSome_get_iff.mpr <| List.mem_map_of_mem he
    rcases h.bindings.table e.fst hsome with hhost | hjob | hcancelling
    · exact .inl <| h.armed hhost
    · have ⟨envelope, hmem, hid, _⟩ := hjob
      exact .inr <| .inl ⟨_, hmem, by simp [Message.isRun, hid]⟩
    · exact .inr <| .inr hcancelling

end Inv

-- In every run that keeps to what is regular, the host and the worker agree on the jobs.
theorem law_throughout (pluginId : String) (jsonLength : P → Option Nat) (es : List (Event P C))
    (h : Runs.Meets (step pluginId jsonLength) Regular {} es) :
    Runs.Throughout (step pluginId jsonLength) Lawful {} es := by
  have hinv : Runs.Throughout (step pluginId jsonLength) (Inv · pluginId) {} es :=
    Runs.throughout_of_meets (fun _ _ hs hreg => hs.step hreg) Inv.empty h
  exact hinv.mono fun _ hs => hs.lawful

private def plainRun : List (Event String Nat) := [
  .register { name := "once", atMs := some 1 }, .execute 0, .deliver, .tick, .fire "job-p-1", .deliver,
  .register { name := "sync", intervalMs := some 100, onRun := some 7 }, .execute 1, .deliver,
  .cancel "job-p-2", .execute 2, .deliver
]

private def plainStep : System String Nat → Event String Nat → System String Nat :=
  step "p" fun text => some text.length

theorem law_throughout_plain :
    Runs.Throughout (step "p" fun text : String => some text.length) Lawful {} plainRun := by
  apply law_throughout
  refine ⟨trivial, trivial, fun _ _ _ => by decide, trivial, ?_, ?_, trivial, trivial, fun _ _ _ => by decide,
    trivial, trivial, trivial, trivial⟩
  case refine_1 =>
    intro job timer hdue
    have hat : ((plainRun.take 4).foldl plainStep {}).host.due "job-p-1" = some (job, timer) := hdue
    have hfirst : (((plainRun.take 4).foldl plainStep {}).host.due "job-p-1").map (·.snd) = some (.first 1) := by
      decide +kernel
    rw [hat] at hfirst
    exact ⟨1, Option.some.inj hfirst⟩
  case refine_2 =>
    intro r hr _ _ honRun
    have hnone : ∀ r ∈ ((plainRun.take 5).foldl plainStep {}).registered, r.onRun = none := by
      decide +kernel
    rw [hnone r hr] at honRun
    cases honRun

private def tickRegistration : Registration Nat where
  jobId      := "job-p-1"
  call       := 0
  intervalMs := some 100
  delayMs    := 100
  since      := 0
  onRun      := none

private def tickRun : List (Event String Nat) :=
  [.register { name := "tick", intervalMs := some 100 }, .execute 0, .deliver] ++
    List.replicate 100 .tick ++ [.fire "job-p-1", .deliver] ++
      List.replicate 100 .tick ++ [.fire "job-p-1", .deliver]

-- A job that repeats goes off twice and never again.
theorem not_armed_after_second : ¬Runs.Throughout plainStep Lawful {} tickRun := by
  intro h
  have hregistered : tickRegistration ∈ (tickRun.foldl plainStep {}).registered := by
    decide +kernel
  have hjob : (Assoc.get (tickRun.foldl plainStep {}).host.jobs "job-p-1").map (·.timer) = some none := by
    decide +kernel
  have ⟨⟨job, timer, hget, htimer⟩, _⟩ := h.last.repeats tickRegistration hregistered 100 rfl rfl
  have hget' : Assoc.get (tickRun.foldl plainStep {}).host.jobs "job-p-1" = some job := hget
  rw [hget', Option.map_some, htimer] at hjob
  cases hjob

end ScheduledJobs.System
