import NeoTavern.PluginSdk.Protocol

namespace PluginSdk

open KernelErrorCode

structure StreamLimitsConfig where
  maxInFlightBytes          : Nat
  maxBufferedBytesPerStream : Nat
  maxTotalBytes             : Nat
  deriving DecidableEq

-- How far a call of `write` has come. The two waits are the ones before and after it enqueues.
-- A wait whose promise is resolved is over when the continuation runs.
inductive WritePhase
  | waitingForRoom
  | hasRoom
  | waitingForDrain
  | drained
  | done
  | rejected (code : String) (note : Option Note)
  deriving DecidableEq

def WritePhase.wake : WritePhase → WritePhase
  | waitingForRoom  => hasRoom
  | waitingForDrain => drained
  | p               => p

structure WriteCall where
  chunk : Bytes
  phase : WritePhase
  deriving DecidableEq

-- `drainWaiters` are the calls of `write` that wait. `listed` says whether the session still has
-- the stream in its map.
structure StreamOutbound where
  streamId         : String
  credit           : Nat := 0
  queue            : List Bytes := []
  queuedBytes      : Nat := 0
  seq              : Nat := 0
  ended            : Bool := false
  errored          : Bool := false
  maxBufferedBytes : Nat
  writes           : List WriteCall := []
  listed           : Bool := true
  deriving DecidableEq

namespace StreamOutbound

variable {V : Type}

def wake (s : StreamOutbound) : StreamOutbound :=
  { s with writes := s.writes.map fun w => { w with phase := w.phase.wake } }

-- What the loop of `pumpOutbound` leaves in the queue, the next number, and what it posts.
def pumpLoop (streamId : String) (credit : Nat) :
    List Bytes → Nat → List Bytes × Nat × List (Envelope V)
  | [],             seq => ([], seq, [])
  | chunk :: queue, seq =>
    if 0 < credit && chunk.length ≤ credit then
      let (left, next, posted) := pumpLoop streamId credit queue (seq + 1)
      (left, next, .streamChunk streamId seq chunk :: posted)
    else
      (chunk :: queue, seq, [])

def pumpOutbound (s : StreamOutbound) : StreamOutbound × List (Envelope V) :=
  let (queue, seq, posted) := pumpLoop s.streamId s.credit s.queue s.seq
  let s := { s with queue, seq }
  if s.ended && queue.isEmpty then
    ({ s with listed := false }, posted ++ [.streamEnd s.streamId])
  else if 2 * s.queuedBytes ≤ s.maxBufferedBytes then
    (s.wake, posted)
  else
    (s, posted)

def setPhase (s : StreamOutbound) (k : Nat) (phase : WritePhase) : StreamOutbound :=
  { s with writes := s.writes.modify k fun w => { w with phase } }

-- The part of `write` after its first wait.
def enqueue (s : StreamOutbound) (k : Nat) (chunk : Bytes) :
    StreamOutbound × List (Envelope V) :=
  let (s, posted) := pumpOutbound {
    s.setPhase k .done with
    queue       := s.queue ++ [chunk]
    queuedBytes := s.queuedBytes + chunk.length
  }
  if s.maxBufferedBytes < s.queuedBytes then
    (s.setPhase k <| if s.errored then .rejected streamFailed none else .waitingForDrain, posted)
  else
    (s, posted)

def write (limits : StreamLimitsConfig) (chunk : Bytes) (s : StreamOutbound) :
    StreamOutbound × List (Envelope V) :=
  let called (phase : WritePhase) := { s with writes := s.writes ++ [{ chunk, phase }] }
  if s.ended || s.errored then
    (called <| .rejected streamFailed <| some <| .reason "closed", [])
  else if limits.maxInFlightBytes < chunk.length then
    (called <| .rejected pluginQuotaExceeded <| some <|
      .limit "streams.maxInFlightBytes" limits.maxInFlightBytes, [])
  else if s.maxBufferedBytes < s.queuedBytes + chunk.length then
    (called .waitingForRoom, [])
  else
    (called .done).enqueue s.writes.length chunk

-- The continuation of a call of `write` whose wait is over.
def resume (k : Nat) (s : StreamOutbound) : StreamOutbound × List (Envelope V) :=
  match s.writes[k]? with
  | some { chunk, phase := .hasRoom } => s.enqueue k chunk
  | some { phase := .drained, .. }    => (s.setPhase k .done, [])
  | _                                 => (s, [])

def close (s : StreamOutbound) : StreamOutbound × List (Envelope V) :=
  if s.ended || s.errored then
    (s, [])
  else if s.queue.isEmpty then
    ({ s with ended := true, listed := false }, [.streamEnd s.streamId])
  else
    ({ s with ended := true }, [])

def fail (error : PluginErrorWire V) (s : StreamOutbound) :
    StreamOutbound × List (Envelope V) :=
  if s.errored || s.ended then
    (s, [])
  else
    ({ s with errored := true, listed := false }, [.streamError s.streamId error])

def onCredit (bytes : Nat) (s : StreamOutbound) : StreamOutbound × List (Envelope V) :=
  pumpOutbound { s with credit := s.credit + bytes }

-- No envelope leads here, since `parseEnvelope` drops `stream.cancel`.
def onCancel (s : StreamOutbound) : StreamOutbound × List (Envelope V) :=
  ({ s.wake with errored := true, listed := false }, [])

def dispose (s : StreamOutbound) : StreamOutbound :=
  if s.listed then { s.wake with listed := false } else s

end StreamOutbound

-- How far a call of `pull` has come.
inductive PullPhase
  | waiting
  | resolved (value : Option Bytes)
  | done (value : Option Bytes)
  | failed
  deriving DecidableEq

-- `pullWaiters` are the calls of `pull` that wait, in the order of the calls.
structure StreamInbound (V : Type) where
  streamId           : String
  grantedNotReceived : Nat
  buffered           : List Bytes := []
  bufferedBytes      : Nat := 0
  nextSeq            : Nat := 0
  ended              : Bool := false
  error              : Option (PluginErrorWire V) := none
  pulls              : List PullPhase := []
  totalReceived      : Nat := 0
  maxTotalBytes      : Nat
  listed             : Bool := true
  deriving DecidableEq

namespace StreamInbound

variable {V : Type}

-- Takes a call of `pull` on. The second component says whether it asks for more credit.
def pull (s : StreamInbound V) : StreamInbound V × Bool :=
  match s.buffered with
  | chunk :: buffered => ({ s with
      buffered
      bufferedBytes := s.bufferedBytes - chunk.length
      pulls         := s.pulls ++ [.done <| some chunk]
    }, true)
  | [] =>
    if s.error.isSome then
      ({ s with pulls := s.pulls ++ [.failed] }, false)
    else if s.ended then
      ({ s with pulls := s.pulls ++ [.done none] }, false)
    else
      ({ s with pulls := s.pulls ++ [.waiting] }, false)

-- The continuation of a call of `pull` whose wait is over.
def resume (k : Nat) (s : StreamInbound V) : StreamInbound V × Bool :=
  match s.pulls[k]? with
  | some (.resolved value) =>
    if s.error.isSome then
      ({ s with pulls := s.pulls.set k .failed }, false)
    else
      ({ s with pulls := s.pulls.set k (.done value) }, value.isSome)
  | _ => (s, false)

-- Every call that waits gets `null`.
def wake (s : StreamInbound V) : StreamInbound V :=
  { s with pulls := s.pulls.map fun p => if p = .waiting then .resolved none else p }

def failInbound (error : PluginErrorWire V) (s : StreamInbound V) : StreamInbound V :=
  { s.wake with error := some error, listed := false }

def onChunk (seq : Nat) (buffer : Bytes) (s : StreamInbound V) : StreamInbound V :=
  if s.ended || s.error.isSome || seq ≠ s.nextSeq then
    s
  else
    let s := { s with
      nextSeq            := s.nextSeq + 1
      totalReceived      := s.totalReceived + buffer.length
      grantedNotReceived := s.grantedNotReceived - buffer.length
    }
    if s.maxTotalBytes < s.totalReceived then
      s.failInbound <| kernelError pluginQuotaExceeded <| some <|
        .limit "streams.maxTotalBytes" s.maxTotalBytes
    else if .waiting ∈ s.pulls then
      { s with pulls := s.pulls.set (s.pulls.idxOf .waiting) <| .resolved <| some buffer }
    else
      { s with buffered := s.buffered ++ [buffer], bufferedBytes := s.bufferedBytes + buffer.length }

def onEnd (s : StreamInbound V) : StreamInbound V :=
  { s.wake with ended := true, listed := false }

-- What is missing to a full window.
def replenishCredit (limits : StreamLimitsConfig) (s : StreamInbound V) :
    StreamInbound V × List (Envelope V) :=
  let outstanding := limits.maxInFlightBytes - s.grantedNotReceived
  if outstanding = 0 then
    (s, [])
  else
    ({ s with grantedNotReceived := s.grantedNotReceived + outstanding },
      [.streamCredit s.streamId outstanding])

end StreamInbound
end PluginSdk
