import NeoTavern.Broker.Core

namespace Forwarding

open Broker (BrokerCallError pairKey maxDeadlineMs)
open Broker.BrokerErrorCode

def serviceUnavailable := "SERVICE_UNAVAILABLE"
def internal := "INTERNAL"
def defaultMaxInflight := 1024

structure BrokerWorkerRef where
  workerId    : Nat
  workerEpoch : Nat
  deriving DecidableEq

inductive Details (R : Type)
  | given (v : R)
  | worker (ref : BrokerWorkerRef)
  deriving DecidableEq

abbrev Error (R : Type) := BrokerCallError (Details R)

structure AdmitParams where
  requestId      : String
  pluginId       : String
  capabilityName : String
  causalChain    : List String
  deadlineAt     : Int
  worker         : BrokerWorkerRef
  deriving DecidableEq

-- The error of a response of the host, of which anything may be missing.
structure WireError (R : Type) where
  code      : Option String := none
  message   : Option String := none
  retryable : Option Bool := none
  details   : Option R := none
  deriving DecidableEq

structure RpcResponseBody (R : Type) where
  worker    : BrokerWorkerRef
  requestId : String
  outcome   : Except (WireError R) R
  deriving DecidableEq

-- The final answers that the control port of a worker gets for a request.
inductive Answer
  | response
  | responseData
  | responseStream
  deriving DecidableEq

-- A call that has been submitted, and what the control port of its worker has got for it.
structure Call (R : Type) where
  params   : AdmitParams
  admitted : Bool := true
  timer    : Bool := true
  settled  : Option (Except (Error R) R) := none
  answers  : List Answer := []
  deriving DecidableEq

-- `inFlight` gives the call of a request, and `workers` the live records of the supervisor.
structure Core (R : Type) where
  maxInflight    : Nat := defaultMaxInflight
  calls          : List (Call R) := []
  inFlight       : List (String × Nat) := []
  revokedPairs   : List String := []
  revokedPlugins : List String := []
  workers        : List BrokerWorkerRef := []
  deriving DecidableEq

-- `sent` is what the frame of an admitted call comes to: whether the sender takes it, or the error
-- that is thrown while it is encoded.
inductive Event (R : Type)
  | submit (params : AdmitParams) (sent : Except (Error R) Bool) (now : Int)
  | rpcResponse (body : RpcResponseBody R)
  | rpcResponseData (worker : BrokerWorkerRef) (requestId : String)
  | rpcResponseStream (worker : BrokerWorkerRef) (requestId : String) (final : Bool)
  | revoke (pluginId : String) (name reason : Option String)
  | deadline (k : Nat)
  | workerSpawn (worker : BrokerWorkerRef)
  | workerExit (worker : BrokerWorkerRef)
  | shutdown

namespace Call

variable {R : Type}

def isOf (c : Call R) (pluginId : String) (name : Option String) : Bool :=
  c.params.pluginId = pluginId && name.all (c.params.capabilityName = ·)

-- The promise of a call settles once, and then the gateway posts the response.
def settle (c : Call R) (outcome : Except (Error R) R) : Call R where
  params   := c.params
  admitted := c.admitted
  timer    := false
  settled  := c.settled <|> some outcome
  answers  := if c.settled.isNone then c.answers ++ [.response] else c.answers

end Call

-- What a response of the host settles a call with.
def RpcResponseBody.settles {R : Type} (body : RpcResponseBody R) : Except (Error R) R :=
  match body.outcome with
  | .ok result   => .ok result
  | .error error => .error {
      code      := error.code.getD internal
      message   := error.message.getD "host call failed"
      retryable := error.retryable.getD false
      details   := error.details.map fun v => .given (.given v)
    }

namespace Core

variable {R : Type}

def isRevoked (s : Core R) (pluginId name : String) : Bool :=
  s.revokedPlugins.contains pluginId || s.revokedPairs.contains (pairKey pluginId name)

def has (s : Core R) (requestId : String) : Bool :=
  s.inFlight.any (·.fst = requestId)

-- The checks of `admitAndRegister`, in their order.
def admission (s : Core R) (params : AdmitParams) (now : Int) : Option (Error R) :=
  if params.deadlineAt < now then
    some { code := operationDeadline, message := "call deadline already passed" }
  else if params.deadlineAt > now + maxDeadlineMs then
    some { code := validationFailed, message := "call deadline exceeds the broker cap" }
  else if params.causalChain.contains params.pluginId then
    some {
      code    := serviceCallCycle
      message := "service call would close a cycle"
      details := some <| .chain <| params.causalChain ++ [params.pluginId]
    }
  else if s.isRevoked params.pluginId params.capabilityName then
    some {
      code    := capabilityRevoked
      message := "capability revoked before the call started"
      details := some <| .capability params.capabilityName
    }
  else if s.has params.requestId then
    some { code := validationFailed, message := "duplicate in-flight requestId" }
  else if s.inFlight.length ≥ s.maxInflight then
    some { code := serviceUnavailable, message := "broker forwarding capacity reached" }
  else
    none

-- Settles the calls of some entries of the table, stops their timers and deletes the entries.
def settleWhere (s : Core R) (hit : String × Nat → Bool) (outcome : Call R → Except (Error R) R) :
    Core R :=
  { s with
    calls    := s.calls.mapIdx fun k c =>
      if s.inFlight.any (fun entry => entry.snd = k && hit entry) then c.settle (outcome c) else c
    inFlight := s.inFlight.filter (!hit ·)
  }

def callOf (s : Core R) (entry : String × Nat) : Option (Call R) :=
  s.calls[entry.snd]?

-- An exception leaves the executor of the promise after the entry has been registered.
def admitAndRegister (s : Core R) (params : AdmitParams) (sent : Except (Error R) Bool) (now : Int) :
    Core R :=
  match s.admission params now with
  | some error =>
    let call : Call R := { params, admitted := false, timer := false }
    { s with calls := s.calls ++ [call.settle (.error error)] }
  | none =>
    let call : Call R := { params }
    let s := { s with inFlight := s.inFlight ++ [(params.requestId, s.calls.length)] }
    match sent with
    | .ok true     => { s with calls := s.calls ++ [call] }
    | .error error =>
      { s with calls := s.calls ++ [{ call.settle (.error error) with timer := true }] }
    | .ok false    =>
      { s with calls := s.calls ++ [call] }.settleWhere (·.fst = params.requestId) fun _ =>
        .error { code := serviceUnavailable, message := "data pipe backpressure" }

def handleRpcResponse (s : Core R) (body : RpcResponseBody R) : Core R :=
  s.settleWhere
    (fun entry => entry.fst = body.requestId && (s.callOf entry).any (·.params.worker = body.worker))
    fun _ => body.settles

def abortInFlight (s : Core R) (pluginId : String) (name reason : Option String) : Core R :=
  s.settleWhere (fun entry => (s.callOf entry).any (·.isOf pluginId name)) fun c => .error {
    code    := capabilityRevoked
    message := reason.getD "capability revoked while the call was in flight"
    details := some <| .revoked pluginId c.params.capabilityName
  }

def revoke (s : Core R) (pluginId : String) (name reason : Option String) : Core R :=
  let s := match name with
    | none      => { s with revokedPlugins := s.revokedPlugins ++ [pluginId] }
    | some name => { s with revokedPairs := s.revokedPairs ++ [pairKey pluginId name] }
  s.abortInFlight pluginId name reason

-- The timer of a call looks its request up by the identifier that the caller gave.
def deadline (s : Core R) (k : Nat) : Core R :=
  match s.calls[k]? with
  | some { params, timer := true, .. } =>
    { s with calls := s.calls.modify k ({ · with timer := false }) }.settleWhere
      (·.fst = params.requestId) fun _ => .error {
        code    := operationDeadline
        message := "call deadline exceeded while awaiting the host"
      }
  | _ => s

def abortWorker (s : Core R) (worker : BrokerWorkerRef) : Core R :=
  s.settleWhere (fun entry => (s.callOf entry).any (·.params.worker = worker)) fun _ => .error {
    code    := serviceUnavailable
    message := "worker terminated while the call was in flight"
    details := some <| .given <| .worker worker
  }

def shutdown (s : Core R) : Core R :=
  s.settleWhere (fun _ => true) fun _ =>
    .error { code := capabilityRevoked, message := "broker shutting down" }

def pendingCount (s : Core R) : Nat :=
  s.inFlight.length

-- A payload that is opaque to the runtime is posted to the worker of its frame, if that is alive.
def post (s : Core R) (worker : BrokerWorkerRef) (requestId : String) (answer : Answer) : Core R :=
  if worker ∈ s.workers then
    { s with calls := s.calls.map fun c =>
        if c.admitted && c.params.worker = worker && c.params.requestId = requestId then
          { c with answers := c.answers ++ [answer] }
        else
          c }
  else
    s

def step (s : Core R) : Event R → Core R
  | .submit params sent now                => s.admitAndRegister params sent now
  | .rpcResponse body                      => s.handleRpcResponse body
  | .rpcResponseData worker requestId      => s.post worker requestId .responseData
  | .rpcResponseStream worker requestId final =>
    if final then s.post worker requestId .responseStream else s
  | .revoke pluginId name reason           => s.revoke pluginId name reason
  | .deadline k                            => s.deadline k
  | .workerSpawn worker                    => { s with workers := s.workers ++ [worker] }
  | .workerExit worker                     =>
    { s with workers := s.workers.filter (· ≠ worker) }.abortWorker worker
  | .shutdown                              => s.shutdown

end Core
end Forwarding
