import NeoTavern.Broker.Core
import NeoTavern.Capability.Kernel

namespace Broker

namespace BrokerErrorCode

def protocolUnsupported := "PROTOCOL_UNSUPPORTED"
def policyDenied := "POLICY_DENIED"
def capabilityDenied := "CAPABILITY_DENIED"
def trustRequired := "TRUST_REQUIRED"
def serviceUnavailable := "SERVICE_UNAVAILABLE"

end BrokerErrorCode

open BrokerErrorCode
open Capability (CapabilityGrant)

inductive BrokerTrustLevel
  | sandbox
  | extended
  | trusted
  deriving DecidableEq

-- A call with what only the policy reads of it.
structure PolicyCall extends BrokerCallRequest where
  trustLevel : BrokerTrustLevel
  revision   : Option Nat := none
  deriving DecidableEq

-- The capability of each method of the catalog (core channels have none), the capabilities that are
-- for trusted plugins only, and the record with one text field.
structure Policy (R : Type) where
  catalog : String → Option (Option String)
  trusted : String → Bool
  record  : String → String → R

def defaultMaxInflight := 1024

def authorize {P R : Type} (policy : Policy R) (grants : List (CapabilityGrant P)) (call : PolicyCall) :
    BrokerDecision R :=
  match policy.catalog call.method with
  | none        => .denied protocolUnsupported none
  | some none   => .allowed
  | some (some capability) =>
    if capability ≠ call.capabilityName then
      .denied policyDenied <| some <| policy.record "expectedCapability" capability
    else
      match grants.find? (·.name = capability) with
      | none       => .denied capabilityDenied none
      | some grant =>
        if call.revision.any (· ≠ grant.revision) then
          .denied capabilityRevoked <| some <| policy.record "capability" capability
        else if policy.trusted capability && call.trustLevel ≠ .trusted then
          .denied trustRequired <| some <| policy.record "capability" capability
        else
          .allowed

namespace Core

variable {P R : Type} (policy : Policy R) (maxInflight : Nat)

-- What stops a request before or while the core takes it.
def rejection (s : Core R) (grants : List (CapabilityGrant P)) (call : PolicyCall) (now : Int) :
    Option (BrokerCallError R) :=
  if !assertBrokerCallShape call.toBrokerCallRequest then
    some { code := validationFailed, message := "malformed broker call envelope" }
  else if s.pendingCount ≥ maxInflight then
    some { code := serviceUnavailable, message := "broker decision capacity reached" }
  else
    s.admission call.toBrokerCallRequest (authorize policy grants call) now

-- The core never sees a request that is malformed or beyond the capacity.
def handleRpcRequest (s : Core R) (grants : List (CapabilityGrant P)) (call : PolicyCall) (now : Int) :
    Core R :=
  if !assertBrokerCallShape call.toBrokerCallRequest || s.pendingCount ≥ maxInflight then
    s
  else
    s.submit call.toBrokerCallRequest (authorize policy grants call) now

end Core
end Broker
