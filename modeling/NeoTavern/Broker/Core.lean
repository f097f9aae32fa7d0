import NeoTavern.Wire.Format

namespace Broker

open Wire (utf16Length)

namespace BrokerErrorCode

def capabilityRevoked := "CAPABILITY_REVOKED"
def operationDeadline := "OPERATION_DEADLINE"
def serviceCallCycle := "SERVICE_CALL_CYCLE"
def validationFailed := "VALIDATION_FAILED"

end BrokerErrorCode

open BrokerErrorCode

def maxCausalChain := 16
def maxDeadlineMs := 60000

structure BrokerCallRequest where
  requestId      : String
  pluginId       : String
  installationId : String
  method         : String
  capabilityName : String
  deadlineAt     : Int
  causalChain    : List String
  deriving DecidableEq

-- The details that the core itself gives, and those of the policy.
inductive Details (R : Type)
  | chain (ids : List String)
  | capability (capabilityName : String)
  | revoked (pluginId capabilityName : String)
  | given (v : R)
  deriving DecidableEq

structure BrokerCallError (R : Type) where
  code      : String
  message   : String := code
  retryable : Bool := false
  details   : Option (Details R) := none
  deriving DecidableEq

inductive BrokerDecision (R : Type)
  | allowed
  | denied (code : String) (details : Option R)
  deriving DecidableEq

-- A call that has been submitted. Its signal is aborted once, with the first reason given.
structure Call (R : Type) where
  request  : BrokerCallRequest
  admitted : Bool := true
  timer    : Bool := true
  aborted  : Option (BrokerCallError R) := none
  settled  : Option (Except (BrokerCallError R) R) := none
  deriving DecidableEq

def Call.isOf {R : Type} (c : Call R) (pluginId : String) (name : Option String) : Bool :=
  c.request.pluginId = pluginId && name.all (c.request.capabilityName = ·)

-- `inFlight` gives the call of a request that can still be aborted.
structure Core (R : Type) where
  calls          : List (Call R) := []
  inFlight       : List (String × Nat) := []
  revokedPairs   : List String := []
  revokedPlugins : List String := []
  deriving DecidableEq

-- An execution comes to its end when it pleases, with whatever it pleases.
inductive Event (R : Type)
  | submit (call : BrokerCallRequest) (decision : BrokerDecision R) (now : Int)
  | revoke (pluginId : String) (name reason : Option String)
  | deadline (k : Nat)
  | complete (k : Nat) (outcome : Except (BrokerCallError R) R)
  | shutdown

def assertBrokerCallShape (call : BrokerCallRequest) : Bool :=
  8 ≤ utf16Length call.requestId && call.method ≠ "" && call.pluginId ≠ "" &&
    call.installationId ≠ "" && call.capabilityName ≠ "" &&
      call.causalChain.length ≤ maxCausalChain &&
        call.causalChain.all fun entry => entry ≠ "" && utf16Length entry ≤ 160

def pairKey (pluginId name : String) : String :=
  s!"{pluginId}\u0000{name}"

namespace Core

variable {R : Type}

def isRevoked (s : Core R) (pluginId name : String) : Bool :=
  s.revokedPlugins.contains pluginId || s.revokedPairs.contains (pairKey pluginId name)

def has (s : Core R) (requestId : String) : Bool :=
  s.inFlight.any (·.fst = requestId)

-- The checks of `submit`, in their order.
def admission (s : Core R) (call : BrokerCallRequest) (decision : BrokerDecision R) (now : Int) :
    Option (BrokerCallError R) :=
  if !assertBrokerCallShape call then
    some { code := validationFailed, message := "malformed broker call envelope" }
  else if call.deadlineAt < now then
    some { code := operationDeadline, message := "call deadline already passed" }
  else if call.deadlineAt > now + maxDeadlineMs then
    some { code := validationFailed, message := "call deadline exceeds the broker cap" }
  else if call.causalChain.contains call.pluginId then
    some {
      code    := serviceCallCycle
      message := "service call would close a cycle"
      details := some <| .chain <| call.causalChain ++ [call.pluginId]
    }
  else if s.isRevoked call.pluginId call.capabilityName then
    some {
      code    := capabilityRevoked
      message := "capability revoked before the call started"
      details := some <| .capability call.capabilityName
    }
  else
    match decision with
    | .denied code details => some { code, details := details.map .given }
    | .allowed =>
      if s.has call.requestId then
        some { code := validationFailed, message := "duplicate in-flight requestId" }
      else
        none

def submit (s : Core R) (call : BrokerCallRequest) (decision : BrokerDecision R) (now : Int) :
    Core R :=
  match s.admission call decision now with
  | some error => { s with
      calls := s.calls ++
        [{ request := call, admitted := false, timer := false, settled := some <| .error error }]
    }
  | none => { s with
      calls    := s.calls ++ [{ request := call }]
      inFlight := s.inFlight ++ [(call.requestId, s.calls.length)]
    }

def delete (s : Core R) (requestId : String) : Core R :=
  { s with inFlight := s.inFlight.filter (·.fst ≠ requestId) }

-- Aborts the signal of a call and stops its timer.
def abort (s : Core R) (k : Nat) (reason : BrokerCallError R) : Core R :=
  { s with calls := s.calls.modify k fun c =>
      { c with aborted := c.aborted <|> some reason, timer := false } }

-- Takes an entry of the table out if its call belongs to what is revoked.
def abortEntry (pluginId : String) (name reason : Option String) (s : Core R) :
    String × Nat → Core R
  | (requestId, k) =>
    match s.calls[k]? with
    | some c =>
      if c.isOf pluginId name then
        (s.abort k {
          code    := capabilityRevoked
          message := reason.getD "capability revoked while the call was in flight"
          details := some <| .revoked pluginId c.request.capabilityName
        }).delete requestId
      else
        s
    | none => s

def abortInFlight (s : Core R) (pluginId : String) (name reason : Option String) : Core R :=
  s.inFlight.foldl (abortEntry pluginId name reason) s

def revoke (s : Core R) (pluginId : String) (name reason : Option String) : Core R :=
  let s := match name with
    | none      => { s with revokedPlugins := s.revokedPlugins ++ [pluginId] }
    | some name => { s with revokedPairs := s.revokedPairs ++ [pairKey pluginId name] }
  s.abortInFlight pluginId name reason

-- The timer of a call looks its request up by the identifier that the caller gave.
def deadline (s : Core R) (k : Nat) : Core R :=
  match s.calls[k]? with
  | some { request, timer := true, .. } =>
    let s := { s with calls := s.calls.modify k ({ · with timer := false }) }
    match s.inFlight.find? (·.fst = request.requestId) with
    | some (requestId, pending) =>
      (s.abort pending {
        code    := operationDeadline
        message := "call deadline exceeded while in flight"
      }).delete requestId
    | none => s
  | _ => s

-- An execution ends. Its entry is deleted by the identifier that the caller gave, too.
def complete (s : Core R) (k : Nat) (outcome : Except (BrokerCallError R) R) : Core R :=
  match s.calls[k]? with
  | some { request, admitted := true, settled := none, .. } =>
    { s with calls := s.calls.modify k ({ · with timer := false, settled := some outcome }) }.delete
      request.requestId
  | _ => s

def shutdown (s : Core R) : Core R :=
  let s := s.inFlight.foldl (fun s (_, k) =>
    s.abort k { code := capabilityRevoked, message := "broker shutting down" }) s
  { s with inFlight := [] }

def pendingCount (s : Core R) : Nat :=
  s.inFlight.length

def step (s : Core R) : Event R → Core R
  | .submit call decision now    => s.submit call decision now
  | .revoke pluginId name reason => s.revoke pluginId name reason
  | .deadline k                  => s.deadline k
  | .complete k outcome          => s.complete k outcome
  | .shutdown                    => s.shutdown

def run (s : Core R) (events : List (Event R)) : Core R :=
  events.foldl step s

end Core
end Broker
