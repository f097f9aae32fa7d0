import NeoTavern.PluginSdk.Stream

namespace PluginSdk

open KernelErrorCode

-- A call that this side has made, with every resolution and rejection of its promise.
structure Call (V : Type) where
  id      : String
  method  : String
  params  : V
  settled : List (Except (PluginErrorWire V) V) := []

structure PendingRequest where
  id    : String
  timer : Bool
  deriving DecidableEq

-- A handler that runs for a request of the peer.
structure Serving where
  id            : String
  aborted       : Bool := false
  deadlineTimer : Bool
  running       : Bool := true
  deriving DecidableEq

-- `port` is everything that has been posted, and `remote` gives the handler of a request that can
-- still be cancelled. Streams are given by the order in which they were opened.
structure KernelSession (V : Type) where
  role       : String
  instanceId : String
  limits     : StreamLimitsConfig
  handlers   : List String
  sequence   : Nat := 0
  disposed   : Bool := false
  calls      : List (Call V) := []
  pending    : List PendingRequest := []
  serving    : List Serving := []
  remote     : List (String × Nat) := []
  outbound   : List StreamOutbound := []
  inbound    : List (StreamInbound V) := []
  port       : List (Envelope V) := []

-- What the program around a session, the timers and the port do to it.
inductive Event (V : Type)
  | call (method : String) (params : V) (deadlineMs : Option Nat) (aborted : Bool)
      (idempotencyKey : Option String) (now : Nat)
  | abort (id : String)
  | timer (id : String)
  | answer (task : Nat) (outcome : Except (Thrown V) V)
  | deadline (task : Nat)
  | openOutboundStream (metaValue : V)
  | write (stream : Nat) (chunk : Bytes)
  | resumeWrite (stream k : Nat)
  | close (stream : Nat)
  | fail (stream : Nat) (error : Option (Thrown V))
  | pull (stream : Nat)
  | resumePull (stream k : Nat)
  | receive (envelope : Envelope V) (now : Nat)
  | dispose

namespace KernelSession

variable {V : Type}

def nextId (s : KernelSession V) (kind : String) : String :=
  s!"{s.role}:{kind}:{s.sequence + 1}"

-- A chunk goes to the port directly, and a port that is closed takes nothing.
def post (s : KernelSession V) (envelopes : List (Envelope V)) : KernelSession V :=
  if s.disposed then s else { s with port := s.port ++ envelopes }

variable [StructuredClone V]

-- An envelope that the port refuses is lost.
def send (s : KernelSession V) (envelopes : List (Envelope V)) : KernelSession V :=
  s.post <| envelopes.filter (·.clones)

section Calls

def settle (s : KernelSession V) (id : String) (outcome : Except (PluginErrorWire V) V) :
    KernelSession V :=
  { s with calls := s.calls.map fun c =>
      if c.id = id then { c with settled := c.settled ++ [outcome] } else c }

def forget (s : KernelSession V) (id : String) : KernelSession V :=
  { s with pending := s.pending.filter (·.id ≠ id) }

def isPending (s : KernelSession V) (id : String) : Bool :=
  s.pending.any (·.id = id)

def cancelRequest (s : KernelSession V) (id : String) : KernelSession V :=
  if s.isPending id then
    ((s.forget id).send [.rpcCancel id]).settle id <| .error <| kernelError operationAborted
  else
    s

def call (s : KernelSession V) (method : String) (params : V) (deadlineMs : Option Nat)
    (aborted : Bool) (idempotencyKey : Option String) (now : Nat) : KernelSession V :=
  if s.disposed then
    s
  else
    let id := s.nextId "req"
    let deadline := deadlineMs.map fun ms => now + max 1 ms
    let s := { s with
      sequence := s.sequence + 1
      calls    := s.calls ++ [({ id, method, params } : Call V)]
      pending  := s.pending ++ [({ id, timer := deadlineMs.isSome } : PendingRequest)]
    }
    let s := s.send [.rpcRequest id s.instanceId method params deadline idempotencyKey]
    if aborted then s.cancelRequest id else s

-- The timer of a call with a deadline.
def timer (s : KernelSession V) (id : String) : KernelSession V :=
  match s.pending.find? (·.id = id), s.calls.find? (·.id = id) with
  | some { timer := true, .. }, some call =>
    (s.forget id).settle id <| .error <| kernelError operationDeadline <| some <| .method call.method
  | _, _ => s

def onResponse (s : KernelSession V) (id : String) (result : Except (PluginErrorWire V) V) :
    KernelSession V :=
  if s.isPending id then (s.forget id).settle id result else s

end Calls

section Serving

def unregister (s : KernelSession V) (id : String) : KernelSession V :=
  { s with remote := s.remote.filter (·.fst ≠ id) }

def serveRequest (s : KernelSession V) (id method : String) (deadline : Option Nat) (now : Nat) :
    KernelSession V :=
  if method ∉ s.handlers then
    s.send [.rpcResponse id <| .error {
      code      := protocolUnsupported
      retryable := false
      details   := some <| .note <| .method method
    }]
  else if deadline.any (· ≤ now) then
    s.send [.rpcResponse id <| .error { code := operationDeadline, retryable := true }]
  else
    { s with
      serving := s.serving ++ [({ id, deadlineTimer := deadline.isSome } : Serving)]
      remote  := s.remote.filter (·.fst ≠ id) ++ [(id, s.serving.length)]
    }

-- A handler has come to its end.
def answer (s : KernelSession V) (task : Nat) (outcome : Except (Thrown V) V) : KernelSession V :=
  match s.serving[task]? with
  | some { id, aborted, running := true, .. } =>
    let result := match outcome with
      | .ok value    =>
        if aborted then .error { code := operationAborted, retryable := false } else .ok value
      | .error error => .error <| toWireError error
    let s := s.send [.rpcResponse id result]
    { s with serving := s.serving.modify task fun t =>
        { t with running := false, deadlineTimer := false } }.unregister id
  | _ => s

def abortTask (s : KernelSession V) (task : Nat) : KernelSession V :=
  { s with serving := s.serving.modify task ({ · with aborted := true }) }

-- The timer that holds a handler to the deadline of its request.
def deadline (s : KernelSession V) (task : Nat) : KernelSession V :=
  match s.serving[task]? with
  | some { deadlineTimer := true, .. } =>
    { s with serving := s.serving.modify task fun t =>
        { t with aborted := true, deadlineTimer := false } }
  | _ => s

def onCancel (s : KernelSession V) (id : String) : KernelSession V :=
  match s.remote.find? (·.fst = id) with
  | some (_, task) => (s.unregister id).abortTask task
  | none           => s

end Serving

section Streams

def openOutboundStream (s : KernelSession V) (metaValue : V) : KernelSession V :=
  if s.disposed then
    s
  else
    let streamId := s.nextId "str"
    let s := { s with
      sequence := s.sequence + 1
      outbound := s.outbound ++ [({
        streamId
        maxBufferedBytes := s.limits.maxBufferedBytesPerStream
      } : StreamOutbound)]
    }
    s.send [.streamOpen streamId metaValue]

-- Carries out a step of an outbound stream.
def stepOutbound (s : KernelSession V) (stream : Nat)
    (f : StreamOutbound → StreamOutbound × List (Envelope V)) : KernelSession V :=
  match s.outbound[stream]? with
  | some o => { s with outbound := s.outbound.set stream (f o).fst }.send (f o).snd
  | none   => s

-- The stream of that identifier in the map of the session.
def outboundOf (s : KernelSession V) (streamId : String) : Option Nat :=
  s.outbound.findIdx? fun o => o.streamId = streamId && o.listed

def inboundOf (s : KernelSession V) (streamId : String) : Option Nat :=
  s.inbound.findIdx? fun i => i.streamId = streamId && i.listed

def onOutbound (s : KernelSession V) (streamId : String)
    (f : StreamOutbound → StreamOutbound × List (Envelope V)) : KernelSession V :=
  match s.outboundOf streamId with
  | some stream => s.stepOutbound stream f
  | none        => s

def replenishCredit (s : KernelSession V) (streamId : String) : KernelSession V :=
  match s.inboundOf streamId with
  | some stream =>
    match s.inbound[stream]? with
    | some i =>
      let (i, credit) := i.replenishCredit s.limits
      { s with inbound := s.inbound.set stream i }.send credit
    | none   => s
  | none => s

-- Carries out a step of a call of `pull`, which may ask for more credit.
def stepPull (s : KernelSession V) (stream : Nat)
    (f : StreamInbound V → StreamInbound V × Bool) : KernelSession V :=
  match s.inbound[stream]? with
  | some i =>
    let t := { s with inbound := s.inbound.set stream (f i).fst }
    if (f i).snd then t.replenishCredit i.streamId else t
  | none   => s

def onInbound (s : KernelSession V) (streamId : String) (f : StreamInbound V → StreamInbound V) :
    KernelSession V :=
  match s.inboundOf streamId with
  | some stream => { s with inbound := s.inbound.modify stream f }
  | none        => s

-- A second stream of the same identifier takes the place of the first one.
def onOpen (s : KernelSession V) (streamId : String) : KernelSession V :=
  { s with
    inbound := (s.inbound.map fun i : StreamInbound V =>
        if i.streamId = streamId then { i with listed := false } else i) ++ [({
      streamId
      grantedNotReceived := s.limits.maxInFlightBytes
      maxTotalBytes      := s.limits.maxTotalBytes
    } : StreamInbound V)]
  }.send [.streamCredit streamId s.limits.maxInFlightBytes]

end Streams

def onMessage (s : KernelSession V) (envelope : Envelope V) (now : Nat) : KernelSession V :=
  if s.disposed then
    s
  else
    match parseEnvelope envelope with
    | none                                         => s
    | some (.rpcRequest id _ method _ deadline _)  => s.serveRequest id method deadline now
    | some (.rpcResponse id result)                => s.onResponse id result
    | some (.rpcCancel id)                         => s.onCancel id
    | some (.streamOpen streamId _)                => s.onOpen streamId
    | some (.streamCredit streamId bytes)          => s.onOutbound streamId (·.onCredit bytes)
    | some (.streamChunk streamId seq buffer)      => s.onInbound streamId (·.onChunk seq buffer)
    | some (.streamEnd streamId)                   => s.onInbound streamId (·.onEnd)
    | some (.streamError streamId error)           => s.onInbound streamId (·.failInbound error)
    | some (.streamCancel streamId)                => s.onOutbound streamId (·.onCancel)
    | some .notice                                 => s

def dispose (s : KernelSession V) : KernelSession V :=
  if s.disposed then
    s
  else
    let s := s.pending.foldl (fun s p => s.settle p.id <| .error <| kernelError operationAborted) s
    let s := s.remote.foldl (fun s (_, task) => s.abortTask task) s
    { s with
      disposed := true
      pending  := []
      remote   := []
      outbound := s.outbound.map (·.dispose)
      inbound  := s.inbound.map fun i =>
        if i.listed then i.failInbound <| kernelError operationAborted else i
    }

def step (s : KernelSession V) : Event V → KernelSession V
  | .call method params deadlineMs aborted key now =>
    s.call method params deadlineMs aborted key now
  | .abort id                     => s.cancelRequest id
  | .timer id                     => s.timer id
  | .answer task outcome          => s.answer task outcome
  | .deadline task                => s.deadline task
  | .openOutboundStream metaValue => s.openOutboundStream metaValue
  | .write stream chunk           => s.stepOutbound stream (·.write s.limits chunk)
  | .resumeWrite stream k         => s.stepOutbound stream (·.resume k)
  | .close stream                 => s.stepOutbound stream (·.close)
  | .fail stream error            => s.stepOutbound stream (·.fail <|
      toWireError <| error.getD <| .kernelError <| kernelError streamFailed)
  | .pull stream                  => s.stepPull stream (·.pull)
  | .resumePull stream k          => s.stepPull stream (·.resume k)
  | .receive envelope now         => s.onMessage envelope now
  | .dispose                      => s.dispose

def run (s : KernelSession V) (events : List (Event V)) : KernelSession V :=
  events.foldl step s

end KernelSession
end PluginSdk
