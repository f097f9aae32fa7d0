import NeoTavern.Broker.Core
import NeoTavern.Lib.Assoc
import NeoTavern.Lib.Lists
import NeoTavern.Lib.Runs

namespace ScheduledJobs

open Wire (utf16Length)
open Broker.BrokerErrorCode (validationFailed)

def jobsMaxPerPlugin := 8
def jobsMinIntervalMs := 100
def jobsMaxIntervalMs := 2147483647
def jobsMaxNameBytes := 128
def jobsMaxPayloadBytes := 64 * 1024
def maxSocketIdBytes := 64
def serviceUnavailable := "SERVICE_UNAVAILABLE"

structure BrokerError where
  code    : String
  message : String
  deriving DecidableEq

structure SdkJobsRegisterArgs (P : Type) where
  name       : String
  intervalMs : Option Nat := none
  atMs       : Option Nat := none
  payload    : Option P := none
  deriving DecidableEq

-- With the callback of the token that `onRun` is given.
structure JobOptions (P C : Type) extends SdkJobsRegisterArgs P where
  onRun : Option C := none
  deriving DecidableEq

structure SdkJobRunEnvelope (P : Type) where
  jobId       : String
  name        : String
  payload     : Option P
  scheduledAt : Nat
  deriving DecidableEq

-- A timer that rearms when it goes off, if the job repeats, and the one that this sets.
inductive Timer
  | first (due : Nat)
  | again (due : Nat)
  deriving DecidableEq

def Timer.due : Timer → Nat
  | first due | again due => due

-- A job whose timer has gone off without setting another one has none.
structure ScheduledJob (P : Type) where
  pluginId   : String
  name       : String
  intervalMs : Option Nat
  payload    : Option P
  timer      : Option Timer
  deriving DecidableEq

structure Host (P : Type) where
  jobs   : List (String × ScheduledJob P) := []
  jobSeq : Nat := 0
  now    : Nat := 0
  deriving DecidableEq

inductive Request (P : Type)
  | register (args : SdkJobsRegisterArgs P)
  | cancel (jobId : String)
  deriving DecidableEq

inductive Result
  | registered (jobId : String)
  | ok
  deriving DecidableEq

-- On its way from the host to the worker.
inductive Message (P : Type)
  | response (request : Nat) (result : Except BrokerError Result)
  | jobRun (envelope : SdkJobRunEnvelope P)
  deriving DecidableEq

-- A call of the plugin. It is taken up by the host once, and settled once its answer has come.
structure Call (P C : Type) where
  request : Request P
  onRun   : Option C := none
  taken   : Bool := false
  settled : Option (Except BrokerError Result) := none
  deriving DecidableEq

-- For the history: what the host has registered.
structure Registration (C : Type) where
  jobId      : String
  call       : Nat
  intervalMs : Option Nat
  delayMs    : Nat
  since      : Nat
  onRun      : Option C
  cancelled  : Bool := false
  deriving DecidableEq

def Registration.cancelling {C : Type} (r : Registration C) (jobId : String) : Registration C :=
  if r.jobId = jobId then { r with cancelled := true } else r

-- The messages to the worker arrive in their order. `runs` are those of jobs that have arrived, with the
-- callback that has been invoked.
structure System (P C : Type) where
  host         : Host P := {}
  inbox        : List (Message P) := []
  calls        : List (Call P C) := []
  jobCallbacks : List (String × C) := []
  registered   : List (Registration C) := []
  runs         : List (SdkJobRunEnvelope P × Option C) := []
  deriving DecidableEq

-- A call can be refused on its way, before the host executes it.
inductive Event (P C : Type)
  | register (options : JobOptions P C)
  | cancel (jobId : String)
  | execute (call : Nat)
  | refuse (call : Nat) (error : BrokerError)
  | fire (jobId : String)
  | tick
  | deliver

section Checks

def sdkCheckedJobName (name : String) : Bool :=
  name ≠ "" && utf16Length name ≤ jobsMaxNameBytes

def sdkCheckedJobInterval (intervalMs : Nat) : Bool :=
  jobsMinIntervalMs ≤ intervalMs && intervalMs ≤ jobsMaxIntervalMs

def sdkCheckedJobAt (atMs : Nat) : Bool :=
  atMs ≤ jobsMaxIntervalMs

def sdkCheckedSocketId (id : String) : Bool :=
  id ≠ "" && utf16Length id ≤ maxSocketIdBytes

variable {P : Type} (jsonLength : P → Option Nat)

-- The checks of `jobs.register` in the worker. A payload has no JSON if it is not serializable.
def SdkJobsRegisterArgs.error (args : SdkJobsRegisterArgs P) : Option BrokerError :=
  if !sdkCheckedJobName args.name then
    some { code := validationFailed, message := "invalid job name" }
  else if args.intervalMs.isSome = args.atMs.isSome then
    some { code := validationFailed, message := "jobs.register needs exactly one of intervalMs or atMs" }
  else if !args.intervalMs.all sdkCheckedJobInterval then
    some { code := validationFailed, message := "invalid job intervalMs" }
  else if !args.atMs.all sdkCheckedJobAt then
    some { code := validationFailed, message := "invalid job atMs" }
  else if !args.payload.all fun p => (jsonLength p).any (· ≤ jobsMaxPayloadBytes) then
    some { code := validationFailed, message := "job payload exceeds the sdk bound" }
  else
    none

def SdkJobsRegisterArgs.decoded (args : SdkJobsRegisterArgs P) : Bool :=
  sdkCheckedJobName args.name && args.intervalMs.all sdkCheckedJobInterval && args.atMs.all sdkCheckedJobAt

def argumentsError : BrokerError where
  code    := validationFailed
  message := "operation arguments failed validation"

end Checks

namespace Host

variable {P : Type} (h : Host P) (pluginId : String)

def jobId (n : Nat) : String :=
  "job-" ++ String.ofList (pluginId.toList.take 24) ++ "-" ++ toString n

def owned : Nat :=
  h.jobs.countP (·.snd.pluginId = pluginId)

def refusal (args : SdkJobsRegisterArgs P) : Option BrokerError :=
  if !args.decoded then
    some argumentsError
  else if args.intervalMs.isNone = args.atMs.isNone then
    some { code := validationFailed, message := "jobs.register needs exactly one of intervalMs or atMs" }
  else if jobsMaxPerPlugin ≤ h.owned pluginId then
    some { code := serviceUnavailable, message := "too many registered jobs" }
  else
    none

-- A timer takes a millisecond at least.
def delayMs (args : SdkJobsRegisterArgs P) : Nat :=
  max 1 <| args.intervalMs.getD <| args.atMs.getD jobsMinIntervalMs

def register (args : SdkJobsRegisterArgs P) : Host P where
  jobs   := Assoc.set h.jobs (jobId pluginId (h.jobSeq + 1)) {
    pluginId
    name       := args.name
    intervalMs := args.intervalMs
    payload    := args.payload
    timer      := some <| .first <| h.now + delayMs args
  }
  jobSeq := h.jobSeq + 1
  now    := h.now

def cancel (jobId : String) : Host P :=
  match Assoc.get h.jobs jobId with
  | some job => if job.pluginId = pluginId then { h with jobs := Assoc.delete h.jobs jobId } else h
  | none     => h

def fireJob (jobId : String) (job : ScheduledJob P) : SdkJobRunEnvelope P where
  jobId
  name        := job.name
  payload     := job.payload
  scheduledAt := h.now

-- What becomes of a job when its timer goes off.
def elapsed (jobId : String) (job : ScheduledJob P) : Timer → Host P
  | .first _ =>
    match job.intervalMs with
    | some intervalMs =>
      { h with jobs := Assoc.set h.jobs jobId { job with timer := some <| .again <| h.now + intervalMs } }
    | none            => { h with jobs := Assoc.delete h.jobs jobId }
  | .again _ => { h with jobs := Assoc.set h.jobs jobId { job with timer := none } }

-- The timer of a job that is due.
def due (jobId : String) : Option (ScheduledJob P × Timer) :=
  (Assoc.get h.jobs jobId).bind fun job => job.timer.bind fun timer =>
    if timer.due ≤ h.now then some (job, timer) else none

-- Time goes on when the timers that are due have gone off.
def tick : Host P :=
  if h.jobs.all fun e => e.snd.timer.all (h.now < ·.due) then { h with now := h.now + 1 } else h

end Host

section Worker

variable {P C : Type}

def bind (jobCallbacks : List (String × C)) (jobId : String) (callback : C) :
    Except BrokerError (List (String × C)) :=
  if jobCallbacks.length ≥ jobsMaxPerPlugin then
    .error { code := serviceUnavailable, message := "too many job callbacks" }
  else
    .ok <| Assoc.set jobCallbacks jobId callback

-- What follows on the answer to a call.
def Call.«then» (call : Call P C) (jobCallbacks : List (String × C)) (result : Result) :
    Except BrokerError (List (String × C)) :=
  match call.request, call.onRun, result with
  | .register _, some callback, .registered jobId =>
    if jobId ≠ "" then bind jobCallbacks jobId callback else .ok jobCallbacks
  | .register _, _, _                             => .ok jobCallbacks
  | .cancel jobId, _, _                           => .ok <| Assoc.delete jobCallbacks jobId

def handleJobRun (jobCallbacks : List (String × C)) (envelope : SdkJobRunEnvelope P) : Option C :=
  if envelope.jobId ≠ "" then Assoc.get jobCallbacks envelope.jobId else none

end Worker

namespace System

variable {P C : Type} (pluginId : String) (jsonLength : P → Option Nat) (s : System P C)

def settle (request : Nat) (result : Except BrokerError Result) : System P C :=
  { s with calls := s.calls.modify request fun call => { call with settled := some result } }

def answer (request : Nat) (result : Except BrokerError Result) : System P C :=
  { s with
    calls := s.calls.modify request fun call => { call with taken := true }
    inbox := s.inbox ++ [.response request result]
  }

def submit (call : Call P C) (error : Option BrokerError) : System P C :=
  { s with calls := s.calls ++ [{ call with taken := error.isSome, settled := error.map .error }] }

def execute (request : Nat) (call : Call P C) : System P C :=
  match call.request with
  | .register args =>
    match s.host.refusal pluginId args with
    | some error => s.answer request <| .error error
    | none       =>
      let jobId := Host.jobId pluginId (s.host.jobSeq + 1)
      { s.answer request <| .ok <| .registered jobId with
        host       := s.host.register pluginId args
        registered := s.registered ++ [{
          jobId, call := request, intervalMs := args.intervalMs, delayMs := Host.delayMs args
          since := s.host.now, onRun := call.onRun
        }]
      }
  | .cancel jobId  =>
    if sdkCheckedSocketId jobId then
      { s.answer request <| .ok .ok with
        host       := s.host.cancel pluginId jobId
        registered := s.registered.map (·.cancelling jobId)
      }
    else
      s.answer request <| .error argumentsError

def handleRpcResponse (request : Nat) (result : Except BrokerError Result) : System P C :=
  match s.calls[request]? with
  | none      => s
  | some call =>
    if call.settled.isSome then
      s
    else
      match result with
      | .error error => s.settle request <| .error error
      | .ok result   =>
        match call.then s.jobCallbacks result with
        | .error error      => s.settle request <| .error error
        | .ok jobCallbacks  => { s.settle request <| .ok result with jobCallbacks }

def deliver : System P C :=
  match s.inbox with
  | []                                => s
  | .response request result :: inbox => { s with inbox }.handleRpcResponse request result
  | .jobRun envelope :: inbox         =>
    { s with inbox, runs := s.runs ++ [(envelope, handleJobRun s.jobCallbacks envelope)] }

def fire (jobId : String) : System P C :=
  match s.host.due jobId with
  | some (job, timer) =>
    { s with
      host  := s.host.elapsed jobId job timer
      inbox := s.inbox ++ [.jobRun <| s.host.fireJob jobId job]
    }
  | none              => s

def step (s : System P C) : Event P C → System P C
  | .register options     =>
    s.submit { request := .register options.toSdkJobsRegisterArgs, onRun := options.onRun } <|
      options.toSdkJobsRegisterArgs.error jsonLength
  | .cancel jobId         =>
    s.submit { request := .cancel jobId } <|
      if sdkCheckedSocketId jobId then none
      else some { code := validationFailed, message := "invalid socket id" }
  | .execute request      =>
    match s.calls[request]? with
    | some call => if call.taken then s else s.execute pluginId request call
    | none      => s
  | .refuse request error =>
    match s.calls[request]? with
    | some call => if call.taken then s else s.answer request <| .error error
    | none      => s
  | .fire jobId           => s.fire jobId
  | .tick                 => { s with host := s.host.tick }
  | .deliver              => s.deliver

end System

end ScheduledJobs

namespace ScheduledJobs

variable {P C : Type}

-- Where a job stands that the host has registered: its timer is the one that has been set at first, or it
-- repeats and has fired, or it was to fire once and has, or it is cancelled.
inductive Stands (found : Option (ScheduledJob P)) (now : Nat) (r : Registration C) (fired : Nat) : Prop
  | waiting (job : ScheduledJob P)
      (here    : found = some job)
      (timer   : job.timer = some (.first (r.since + r.delayMs)))
      (repeats : job.intervalMs = r.intervalMs)
      (kept    : r.cancelled = false)
      (never   : fired = 0)
      (after   : r.since ≤ now)
      (before  : now ≤ r.since + r.delayMs)
  | repeating (job : ScheduledJob P) (interval : Nat)
      (here    : found = some job)
      (timer   : job.timer = some (.again (r.since + 2 * interval)))
      (same    : job.intervalMs = r.intervalMs)
      (repeats : r.intervalMs = some interval)
      (kept    : r.cancelled = false)
      (once    : fired = 1)
      (after   : r.since + interval ≤ now)
      (before  : now ≤ r.since + 2 * interval)
  | ended
      (gone    : found = none)
      (single  : r.intervalMs = none)
      (once    : fired = 1)
      (after   : r.since + r.delayMs ≤ now)
  | cancelled
      (gone    : found = none)
      (given   : r.cancelled = true)
      (bound   : fired ≤ 1)

-- `fired` tells how often each job has fired.
structure Timing (pluginId : String) (h : Host P) (registered : List (Registration C)) (fired : String → Nat) :
    Prop where
  owners : ∀ jobId job, Assoc.get h.jobs jobId = some job →
    job.pluginId = pluginId ∧ ∃ r ∈ registered, r.jobId = jobId
  ids    : ∀ r ∈ registered, ∃ n ≤ h.jobSeq, r.jobId = Host.jobId pluginId n
  delays : ∀ r ∈ registered, ∀ interval, r.intervalMs = some interval → r.delayMs = interval
  fires  : ∀ jobId, fired jobId ≠ 0 → ∃ r ∈ registered, r.jobId = jobId
  stands : ∀ r ∈ registered, Stands (Assoc.get h.jobs r.jobId) h.now r (fired r.jobId)

namespace Timing

variable {pluginId : String} {h : Host P} {registered : List (Registration C)} {fired : String → Nat}
  {args : SdkJobsRegisterArgs P} {job : ScheduledJob P} {jobId : String} {r : Registration C}

theorem nil : Timing (P := P) (C := C) pluginId {} [] fun _ => 0 where
  owners _ _ h := by cases h
  ids _ h      := absurd h List.not_mem_nil
  delays _ h   := absurd h List.not_mem_nil
  fires _ h    := absurd rfl h
  stands _ h   := absurd h List.not_mem_nil

theorem jobId_ne {n : Nat} : Host.jobId pluginId n ≠ "" := by
  intro hempty
  have hlist := congrArg String.toList hempty
  simp [Host.jobId] at hlist

theorem jobId_ne_empty (t : Timing pluginId h registered fired) (hr : r ∈ registered) : r.jobId ≠ "" := by
  have ⟨n, _, hn⟩ := t.ids r hr
  rw [hn]
  exact jobId_ne

theorem interval_pos (hargs : h.refusal pluginId args = none) {interval : Nat}
    (hi : args.intervalMs = some interval) : 1 ≤ interval := by
  rw [Host.refusal] at hargs
  split at hargs
  case isTrue             => cases hargs
  case isFalse hdecoded =>
    have hall : args.decoded = true := by simpa using hdecoded
    simp only [SdkJobsRegisterArgs.decoded, hi, Option.all_some, sdkCheckedJobInterval, Bool.and_eq_true,
      decide_eq_true_eq] at hall
    have hle : jobsMinIntervalMs ≤ interval := hall.left.right.left
    exact (by decide : 1 ≤ jobsMinIntervalMs).trans hle

-- The next id is new.
theorem fresh (t : Timing pluginId h registered fired) (hr : r ∈ registered) :
    r.jobId ≠ Host.jobId pluginId (h.jobSeq + 1) := by
  have ⟨n, hle, hn⟩ := t.ids r hr
  intro heq
  have hnumber : n = h.jobSeq + 1 := NumberedNames.number_eq <| hn.symm.trans heq
  omega

theorem register (t : Timing pluginId h registered fired) (hargs : h.refusal pluginId args = none)
    {r : Registration C} (hid : r.jobId = Host.jobId pluginId (h.jobSeq + 1))
    (hinterval : r.intervalMs = args.intervalMs)
    (hdelay : r.delayMs = Host.delayMs args) (hsince : r.since = h.now) (hkept : r.cancelled = false) :
    Timing pluginId (h.register pluginId args) (registered ++ [r]) fired := by
  have hfresh : fired r.jobId = 0 := by
    by_contra hne
    have ⟨r', hr', heq⟩ := t.fires _ hne
    exact t.fresh hr' <| heq.trans hid
  constructor
  case owners =>
    intro jobId job hjob
    by_cases heq : jobId = r.jobId
    case pos =>
      rw [heq, hid, Host.register, Assoc.get_set_self] at hjob
      cases hjob
      exact ⟨rfl, r, List.mem_append_right _ <| List.mem_singleton_self _, heq.symm⟩
    case neg =>
      rw [hid] at heq
      rw [Host.register, Assoc.get_set_of_ne heq] at hjob
      have ⟨hplugin, r', hr', heq'⟩ := t.owners jobId job hjob
      exact ⟨hplugin, r', List.mem_append_left _ hr', heq'⟩
  case ids =>
    intro r' hr'
    cases List.mem_append.mp hr'
    case inl hr' =>
      have ⟨n, hle, hn⟩ := t.ids r' hr'
      exact ⟨n, Nat.le_succ_of_le hle, hn⟩
    case inr hr' =>
      rw [List.mem_singleton.mp hr']
      exact ⟨_, le_rfl, hid⟩
  case delays =>
    intro r' hr' interval hi
    cases List.mem_append.mp hr'
    case inl hr' => exact t.delays r' hr' interval hi
    case inr hr' =>
      rw [List.mem_singleton.mp hr'] at hi ⊢
      rw [hinterval] at hi
      have hle := interval_pos hargs hi
      rw [hdelay, Host.delayMs, hi, Option.getD_some]
      exact Nat.max_eq_right hle
  case fires =>
    intro jobId hne
    have ⟨r', hr', heq⟩ := t.fires jobId hne
    exact ⟨r', List.mem_append_left _ hr', heq⟩
  case stands =>
    intro r' hr'
    cases List.mem_append.mp hr'
    case inl hr' =>
      rw [Host.register, Assoc.get_set_of_ne <| t.fresh hr']
      exact t.stands r' hr'
    case inr hr' =>
      rw [List.mem_singleton.mp hr', hfresh, hid, Host.register, Assoc.get_set_self]
      refine .waiting _ rfl ?_ hinterval.symm hkept rfl hsince.le ?_
      · rw [hsince, hdelay]
      · rw [hsince]
        exact Nat.le_add_right _ _

theorem intervalMs_eq (t : Timing pluginId h registered fired) (hr : r ∈ registered)
    (hjob : Assoc.get h.jobs r.jobId = some job) : job.intervalMs = r.intervalMs := by
  cases t.stands r hr
  case waiting job' here _ same _ _ _ _ =>
    cases hjob.symm.trans here
    exact same
  case repeating job' interval here _ same _ _ _ _ _ =>
    cases hjob.symm.trans here
    exact same
  case ended gone _ _ _   => cases hjob.symm.trans gone
  case cancelled gone _ _ => cases hjob.symm.trans gone

-- All jobs are the plugin's, so that a cancel removes what there is.
theorem get_cancel (t : Timing pluginId h registered fired) (k : String) :
    Assoc.get (h.cancel pluginId jobId).jobs k = if k = jobId then none else Assoc.get h.jobs k := by
  rw [Host.cancel]
  split
  case h_2 hnone =>
    split
    case isTrue heq => rw [heq, hnone]
    case isFalse    => rfl
  case h_1 job hjob =>
    rw [if_pos (t.owners jobId job hjob).left]
    split
    case isTrue heq  => rw [heq, Assoc.get_delete_self]
    case isFalse hne => exact Assoc.get_delete_of_ne hne

theorem cancel_frame (h : Host P) (pluginId jobId : String) :
    (h.cancel pluginId jobId).now = h.now ∧ (h.cancel pluginId jobId).jobSeq = h.jobSeq := by
  rw [Host.cancel]
  split
  case h_1 => split <;> exact ⟨rfl, rfl⟩
  case h_2 => exact ⟨rfl, rfl⟩

theorem cancelling_jobId : (r.cancelling jobId).jobId = r.jobId := by
  rw [Registration.cancelling]
  split <;> rfl

theorem cancelling_intervalMs : (r.cancelling jobId).intervalMs = r.intervalMs := by
  rw [Registration.cancelling]
  split <;> rfl

theorem cancelling_delayMs : (r.cancelling jobId).delayMs = r.delayMs := by
  rw [Registration.cancelling]
  split <;> rfl

theorem cancel (t : Timing pluginId h registered fired) :
    Timing pluginId (h.cancel pluginId jobId) (registered.map (·.cancelling jobId)) fired := by
  obtain ⟨hnow, hseq⟩ := cancel_frame h pluginId jobId
  constructor
  case owners =>
    intro k job hjob
    rw [t.get_cancel] at hjob
    split at hjob
    case isTrue  => cases hjob
    case isFalse =>
      obtain ⟨hplugin, r, hr, heq⟩ := t.owners k job hjob
      exact ⟨hplugin, _, List.mem_map_of_mem hr, cancelling_jobId.trans heq⟩
  case ids =>
    intro r' hr'
    obtain ⟨r, hr, heq⟩ := List.mem_map.mp hr'
    obtain ⟨n, hle, hn⟩ := t.ids r hr
    rw [hseq, ← heq, cancelling_jobId]
    exact ⟨n, hle, hn⟩
  case delays =>
    intro r' hr' interval hi
    obtain ⟨r, hr, heq⟩ := List.mem_map.mp hr'
    rw [← heq, cancelling_intervalMs] at hi
    rw [← heq, cancelling_delayMs]
    exact t.delays r hr interval hi
  case fires =>
    intro k hne
    obtain ⟨r, hr, heq⟩ := t.fires k hne
    exact ⟨_, List.mem_map_of_mem hr, cancelling_jobId.trans heq⟩
  case stands =>
    intro r' hr'
    obtain ⟨r, hr, heq⟩ := List.mem_map.mp hr'
    have hs := t.stands r hr
    rw [← heq, cancelling_jobId, t.get_cancel, hnow, Registration.cancelling]
    split
    case isFalse => exact hs
    case isTrue  =>
      cases hs
      case waiting never after before  => exact .cancelled rfl rfl <| by simp [never]
      case repeating once after before => exact .cancelled rfl rfl once.le
      case ended once after            => exact .cancelled rfl rfl once.le
      case cancelled bound             => exact .cancelled rfl rfl bound

theorem due_eq_some {timer : Timer} (hdue : h.due jobId = some (job, timer)) :
    Assoc.get h.jobs jobId = some job ∧ job.timer = some timer ∧ timer.due ≤ h.now := by
  have ⟨job', hjob, hrest⟩ := Option.bind_eq_some_iff.mp hdue
  have ⟨timer', htimer, hle⟩ := Option.bind_eq_some_iff.mp hrest
  split at hle
  case isFalse => cases hle
  case isTrue hdue =>
    cases hle
    exact ⟨hjob, htimer, hdue⟩

theorem elapsed_frame (h : Host P) (jobId : String) (job : ScheduledJob P) (timer : Timer) :
    (h.elapsed jobId job timer).now = h.now ∧ (h.elapsed jobId job timer).jobSeq = h.jobSeq := by
  cases timer
  case again => exact ⟨rfl, rfl⟩
  case first =>
    rw [Host.elapsed]
    split <;> exact ⟨rfl, rfl⟩

theorem get_elapsed_of_ne {timer : Timer} {k : String} (hne : k ≠ jobId) :
    Assoc.get (h.elapsed jobId job timer).jobs k = Assoc.get h.jobs k := by
  cases timer
  case again => exact Assoc.get_set_of_ne hne
  case first =>
    rw [Host.elapsed]
    split
    case h_1 => exact Assoc.get_set_of_ne hne
    case h_2 => exact Assoc.get_delete_of_ne hne

theorem get_elapsed_first {d : Nat} : Assoc.get (h.elapsed jobId job (.first d)).jobs jobId =
    job.intervalMs.map fun intervalMs => { job with timer := some <| .again <| h.now + intervalMs } := by
  rw [Host.elapsed]
  split
  case h_1 intervalMs heq =>
    rw [heq, Option.map_some]
    exact Assoc.get_set_self
  case h_2 heq =>
    rw [heq, Option.map_none]
    exact Assoc.get_delete_self

theorem fire {d : Nat} (t : Timing pluginId h registered fired) (hdue : h.due jobId = some (job, .first d)) :
    Timing pluginId (h.elapsed jobId job (.first d)) registered
      fun k => if k = jobId then fired k + 1 else fired k := by
  have ⟨hjob, htimer, hle⟩ := due_eq_some hdue
  have ⟨hnow, hseq⟩ := elapsed_frame h jobId job (.first d)
  have ⟨hplugin, hregistered⟩ := t.owners jobId job hjob
  constructor
  case owners =>
    intro k job' hjob'
    by_cases heq : k = jobId
    case neg =>
      rw [get_elapsed_of_ne heq] at hjob'
      exact t.owners k job' hjob'
    case pos =>
      rw [heq, get_elapsed_first] at hjob'
      have ⟨intervalMs, _, hrearmed⟩ := Option.map_eq_some_iff.mp hjob'
      rw [← hrearmed, heq]
      exact ⟨hplugin, hregistered⟩
  case ids    => exact fun r hr => hseq ▸ t.ids r hr
  case delays => exact t.delays
  case fires  =>
    intro k hne
    by_cases heq : k = jobId
    case neg =>
      rw [if_neg heq] at hne
      exact t.fires k hne
    case pos =>
      rw [heq]
      exact hregistered
  case stands =>
    intro r hr
    have hs := t.stands r hr
    rw [hnow]
    by_cases heq : r.jobId = jobId
    case neg =>
      rw [get_elapsed_of_ne heq, if_neg heq]
      exact hs
    case pos =>
      rw [heq, if_pos rfl, get_elapsed_first]
      rw [heq, hjob] at hs
      cases hs
      case ended gone _ _ _   => cases gone
      case cancelled gone _ _ => cases gone
      case repeating job' interval here timer _ _ _ _ _ _ =>
        cases here
        rw [htimer] at timer
        cases timer
      case waiting job' here timer repeats kept never _ before =>
        cases here
        rw [htimer] at timer
        cases timer
        have heq : h.now = r.since + r.delayMs := Nat.le_antisymm before hle
        cases hinterval : job.intervalMs
        case none => exact .ended rfl (repeats ▸ hinterval) (by rw [never]) heq.ge
        case some interval =>
          have hrepeats : r.intervalMs = some interval := repeats ▸ hinterval
          have hdelay := t.delays r hr interval hrepeats
          refine .repeating _ interval rfl ?_ hrepeats.symm hrepeats kept (by rw [never]) ?_ ?_
          · rw [heq, hdelay]
            grind
          · omega
          · omega

theorem tick (t : Timing pluginId h registered fired) : Timing pluginId h.tick registered fired := by
  rw [Host.tick]
  split
  case isFalse => exact t
  case isTrue hall =>
    have hdue (k : String) (job : ScheduledJob P) (hjob : Assoc.get h.jobs k = some job) (timer : Timer)
        (htimer : job.timer = some timer) : h.now < timer.due := by
      have hmem := List.all_eq_true.mp hall _ <| Assoc.mem_of_get hjob
      simpa [htimer] using hmem
    refine { t with stands := fun r hr => ?_ }
    cases t.stands r hr
    case waiting job here timer repeats kept never after before =>
      have hlt := hdue _ _ here _ timer
      exact .waiting job here timer repeats kept never (Nat.le_succ_of_le after) hlt
    case repeating job interval here timer same repeats kept once after before =>
      have hlt := hdue _ _ here _ timer
      exact .repeating job interval here timer same repeats kept once (Nat.le_succ_of_le after) hlt
    case ended gone single once after  => exact .ended gone single once (Nat.le_succ_of_le after)
    case cancelled gone given bound    => exact .cancelled gone given bound

end Timing
end ScheduledJobs
