import Mathlib

namespace PluginSdk

abbrev Bytes := List UInt8

-- The values that plugins and the host hand each other. Structured clone refuses some of them.
class StructuredClone (V : Type) where
  clones : V → Bool

export StructuredClone (clones)

namespace KernelErrorCode

def protocolUnsupported := "PROTOCOL_UNSUPPORTED"
def pluginQuotaExceeded := "PLUGIN_QUOTA_EXCEEDED"
def resourcePressure := "RESOURCE_PRESSURE"
def operationAborted := "OPERATION_ABORTED"
def operationDeadline := "OPERATION_DEADLINE"
def streamFailed := "STREAM_FAILED"
def backendUnavailable := "BACKEND_UNAVAILABLE"
def workerSpawnFailed := "WORKER_SPAWN_FAILED"
def serviceUnavailable := "SERVICE_UNAVAILABLE"
def serviceTimeout := "SERVICE_TIMEOUT"
def internal := "INTERNAL"

end KernelErrorCode

open KernelErrorCode

-- The details that the session itself gives, with their one or two fields.
inductive Note
  | limit (limit : String) (max : Nat)
  | method (method : String)
  | reason (reason : String)
  deriving DecidableEq

-- The details of an error: a value of the thrower, its message, or a note of the session.
inductive Details (V : Type)
  | value (v : V)
  | message (m : Option String)
  | note (n : Note)
  deriving DecidableEq

structure PluginErrorWire (V : Type) where
  code         : String
  retryable    : Bool
  retryAfterMs : Option Nat := none
  details      : Option (Details V) := none
  deriving DecidableEq

-- What a handler can throw.
inductive Thrown (V : Type)
  | kernelError (wire : PluginErrorWire V)
  | abortError
  | error (message : String)
  | other
  deriving DecidableEq

def retryable : List String := [
  pluginQuotaExceeded, resourcePressure, operationDeadline, backendUnavailable, streamFailed,
  workerSpawnFailed, serviceUnavailable, serviceTimeout, internal
]

-- An error of the session with the default answer to whether a retry helps.
def kernelError {V : Type} (code : String) (note : Option Note := none) : PluginErrorWire V where
  code
  retryable := retryable.contains code
  details   := note.map .note

def isErrorCode (s : String) : Bool :=
  match s.toList with
  | c :: d :: cs => c.isUpper && (d :: cs).all fun c => c.isUpper || c.isDigit || c = '_'
  | _            => false

def safeMessage (message : String) : String :=
  .ofList <| message.toList.take 500

def toWireError {V : Type} : Thrown V → PluginErrorWire V
  | .kernelError wire => wire
  | .abortError       => { code := operationAborted, retryable := false }
  | .error message    =>
    let code := if isErrorCode message then message else internal
    {
      code
      retryable := retryable.contains code
      details   := some <| .message <| some <| safeMessage message
    }
  | .other            => {
    code      := internal
    retryable := retryable.contains internal
    details   := some <| .message none
  }

-- Envelopes that are only handed to listeners are all `notice`.
inductive Envelope (V : Type)
  | rpcRequest (id instanceId method : String) (params : V) (deadline : Option Nat)
      (idempotencyKey : Option String)
  | rpcResponse (id : String) (result : Except (PluginErrorWire V) V)
  | rpcCancel (id : String)
  | streamOpen (streamId : String) (metaValue : V)
  | streamCredit (streamId : String) (bytes : Nat)
  | streamChunk (streamId : String) (seq : Nat) (buffer : Bytes)
  | streamEnd (streamId : String)
  | streamError (streamId : String) (error : PluginErrorWire V)
  | streamCancel (streamId : String)
  | notice

-- Among the envelopes of the protocol, those that a session takes up. There is no case for
-- `stream.cancel`, so it counts as an unknown kind.
def parseEnvelope {V : Type} : Envelope V → Option (Envelope V)
  | .streamCancel _   => none
  | .streamCredit _ 0 => none
  | e                 => some e

section Clones

variable {V : Type} [StructuredClone V]

def PluginErrorWire.clones (e : PluginErrorWire V) : Bool :=
  match e.details with
  | some (.value v) => PluginSdk.clones v
  | _               => true

-- Whether `postMessage` takes an envelope. It throws on all others.
def Envelope.clones : Envelope V → Bool
  | .rpcRequest _ _ _ params _ _  => PluginSdk.clones params
  | .rpcResponse _ (.ok result)   => PluginSdk.clones result
  | .rpcResponse _ (.error error) => error.clones
  | .streamOpen _ metaValue       => PluginSdk.clones metaValue
  | .streamError _ error          => error.clones
  | _                             => true

end Clones

namespace Sample

-- Structured clone takes data, but no functions.
inductive Value
  | data (n : Nat)
  | function
  deriving DecidableEq

instance : StructuredClone Value where
  clones
    | .data _   => true
    | .function => false

end Sample
end PluginSdk
