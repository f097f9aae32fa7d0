import NeoTavern.Runtime.ResponseStreamer

namespace ResponseStream

namespace Begun

-- The chunks that a body is cut into, and the frames that carry them.
def chunkOf (b : Begun) (i : Nat) : Bytes :=
  (b.body.drop (i * rpcStreamChunkBytes)).take rpcStreamChunkBytes

def frameOf (b : Begun) (i : Nat) : RpcResponseStreamFrame where
  worker := b.worker
  header := {
    requestId := b.requestId
    seq       := i
    final     := b.body.length ≤ (i + 1) * rpcStreamChunkBytes
  }
  chunk  := b.chunkOf i

-- The state of a stream between two chunks.
def stateOf (b : Begun) (n : Nat) : ResponseStreamState where
  worker := b.worker
  body   := b.body
  offset := n * rpcStreamChunkBytes
  credit := 0
  seq    := n

def creditOf (b : Begun) : PluginRuntimeStreamCreditBody where
  worker    := b.worker
  requestId := b.requestId
  bytes     := rpcStreamChunkBytes

def callId (b : Begun) : CallId :=
  (b.worker, b.requestId)

def chunksOf (b : Begun) (n : Nat) : List Bytes :=
  (List.range n).map b.chunkOf

-- What a worker has assembled after `n` chunks, none of which is the last one.
def assembled (b : Begun) : Nat → Option Assembly
  | 0     => none
  | n + 1 => some {
      chunks     := b.chunksOf (n + 1)
      totalBytes := (n + 1) * rpcStreamChunkBytes
      seq        := n
    }

variable {b : Begun} {n : Nat}

theorem chunksOf_succ : b.chunksOf (n + 1) = b.chunksOf n ++ [b.chunkOf n] := by
  rw [chunksOf, chunksOf, List.range_succ, List.map_append]
  rfl

theorem flatten_chunksOf : (b.chunksOf n).flatten = b.body.take (n * rpcStreamChunkBytes) := by
  induction n
  case zero      => simp [chunksOf]
  case succ n ih =>
    rw [chunksOf_succ, List.flatten_append, ih, Nat.succ_mul, List.take_add]
    simp [chunkOf]

theorem flatten_of_last (h : b.body.length ≤ n * rpcStreamChunkBytes) :
    (b.chunksOf n).flatten = b.body := by
  rw [flatten_chunksOf, List.take_of_length_le h]

theorem length_chunkOf_of_lt (h : (n + 1) * rpcStreamChunkBytes < b.body.length) :
    (b.chunkOf n).length = rpcStreamChunkBytes := by
  rw [Nat.succ_mul] at h
  rw [chunkOf, List.length_take, List.length_drop]
  omega

theorem length_chunkOf_le : n * rpcStreamChunkBytes ≤ b.body.length →
    n * rpcStreamChunkBytes + (b.chunkOf n).length ≤ b.body.length := by
  intro h
  rw [chunkOf, List.length_take, List.length_drop]
  omega

end Begun

section Streams

open Assoc

variable {streams : Streams} {b : Begun} {n : Nat} {id : String}

-- With a free window, a stream sends its next chunk, and is dropped with the last one.
theorem pumpOne_spec (hget : get streams b.requestId =
      some { b.stateOf n with credit := rpcStreamChunkBytes })
    (hlt : n * rpcStreamChunkBytes < b.body.length) :
    (streams.pumpOne b.requestId).snd = some (b.frameOf n) ∧
      (get (streams.pumpOne b.requestId).fst b.requestId =
        if (n + 1) * rpcStreamChunkBytes < b.body.length then some (b.stateOf (n + 1)) else none) ∧
      ∀ id, id ≠ b.requestId → get (streams.pumpOne b.requestId).fst id = get streams id := by
  have hmul : (n + 1) * rpcStreamChunkBytes = n * rpcStreamChunkBytes + rpcStreamChunkBytes :=
    Nat.succ_mul ..
  rw [Streams.pumpOne, hget]
  dsimp only [Begun.stateOf]
  rw [if_neg (Nat.not_le.mpr hlt), if_neg (Nat.lt_irrefl _)]
  by_cases hlast : b.body.length ≤ (n + 1) * rpcStreamChunkBytes
  case pos =>
    have hmin : min (n * rpcStreamChunkBytes + rpcStreamChunkBytes) b.body.length = b.body.length := by
      omega
    have hchunk : (b.body.drop (n * rpcStreamChunkBytes)).take
        (b.body.length - n * rpcStreamChunkBytes) = b.chunkOf n := by
      rw [Begun.chunkOf, ← List.length_drop, List.take_length, List.take_of_length_le]
      rw [List.length_drop]
      omega
    rw [hmin, hchunk, if_neg (Nat.not_lt.mpr hlast)]
    refine ⟨?_, by simp, fun id hid => ?_⟩
    · simp [Begun.frameOf, hlast]
    · simp [get_delete_of_ne hid, get_set_of_ne hid]
  case neg =>
    have hmin : min (n * rpcStreamChunkBytes + rpcStreamChunkBytes) b.body.length =
        (n + 1) * rpcStreamChunkBytes := by
      omega
    have hsub : (n + 1) * rpcStreamChunkBytes - n * rpcStreamChunkBytes = rpcStreamChunkBytes := by
      omega
    have hne : (n + 1) * rpcStreamChunkBytes ≠ b.body.length := by omega
    have hlen := Begun.length_chunkOf_of_lt (Nat.not_le.mp hlast)
    have hchunk : (b.body.drop (n * rpcStreamChunkBytes)).take rpcStreamChunkBytes = b.chunkOf n := rfl
    rw [hmin, hsub, hchunk, hlen, Nat.sub_self, if_pos (Nat.not_le.mp hlast)]
    refine ⟨?_, by simp [hne], fun id hid => ?_⟩
    · simp [Begun.frameOf, hlast, hne]
    · simp [hne, get_set_of_ne hid]

-- What the streamer can begin with.
def Fits (streams : Streams) (body : Bytes) : Prop :=
  0 < body.length ∧ body.length ≤ rpcStreamMaxAccumulatedBytes ∧ streams.length < rpcStreamMaxConcurrent

theorem begin_of_fits (hfresh : get streams b.requestId = none) (hfits : Fits streams b.body) :
    (streams.begin b.worker b.requestId b.body).snd = .ok (b.frameOf 0) ∧
      (get (streams.begin b.worker b.requestId b.body).fst b.requestId =
        if rpcStreamChunkBytes < b.body.length then some (b.stateOf 1) else none) ∧
      ∀ id, id ≠ b.requestId →
        get (streams.begin b.worker b.requestId b.body).fst id = get streams id := by
  obtain ⟨hpos, hmax, hroom⟩ := hfits
  have hget : get (set streams b.requestId { worker := b.worker, body := b.body }) b.requestId =
      some { b.stateOf 0 with credit := rpcStreamChunkBytes } := by
    simp [Begun.stateOf, rpcStreamInitialCreditBytes]
  obtain ⟨hframe, hstream, hother⟩ := pumpOne_spec hget (by simpa using hpos)
  have hsome : ¬(get streams b.requestId).isSome := by simp [hfresh]
  rw [Streams.begin, if_neg (Nat.not_lt.mpr hmax), if_neg hsome, if_neg (Nat.not_le.mpr hroom)]
  cases hpump : Streams.pumpOne (set streams b.requestId { worker := b.worker, body := b.body }) b.requestId
  case mk rest frame =>
    rw [hpump] at hframe hstream hother
    dsimp only at hframe hstream hother
    subst hframe
    refine ⟨rfl, ?_, fun id hid => ?_⟩
    · simpa using hstream
    · rw [hother id hid, get_set_of_ne hid]

theorem begin_of_not_fits (hfresh : get streams b.requestId = none) (hfits : ¬Fits streams b.body) :
    (∃ e, (streams.begin b.worker b.requestId b.body).snd = .error e) ∧
      ∀ id, get (streams.begin b.worker b.requestId b.body).fst id = get streams id := by
  have hsome : ¬(get streams b.requestId).isSome := by simp [hfresh]
  rw [Streams.begin]
  by_cases hmax : b.body.length > rpcStreamMaxAccumulatedBytes
  case pos =>
    rw [if_pos hmax]
    exact ⟨⟨_, rfl⟩, fun _ => rfl⟩
  case neg =>
    rw [if_neg hmax, if_neg hsome]
    by_cases hroom : streams.length ≥ rpcStreamMaxConcurrent
    case pos =>
      rw [if_pos hroom]
      exact ⟨⟨_, rfl⟩, fun _ => rfl⟩
    case neg =>
      have hnil : b.body = [] := by
        cases hbody : b.body
        case nil      => rfl
        case cons x l =>
          refine absurd ⟨?_, Nat.not_lt.mp hmax, Nat.not_le.mp hroom⟩ hfits
          simp [hbody]
      have hpump : Streams.pumpOne (set streams b.requestId { worker := b.worker, body := b.body })
          b.requestId =
            (delete (set streams b.requestId { worker := b.worker, body := b.body }) b.requestId, none) := by
        simp [Streams.pumpOne, hnil]
      rw [if_neg hroom, hpump]
      refine ⟨⟨_, rfl⟩, fun id => ?_⟩
      by_cases hid : id = b.requestId
      case pos => rw [hid, get_delete_self, hfresh]
      case neg => rw [get_delete_of_ne hid, get_delete_of_ne hid, get_set_of_ne hid]

-- A worker that consumes a chunk gets the next one.
theorem grant_spec (hget : get streams b.requestId = some (b.stateOf n))
    (hlt : n * rpcStreamChunkBytes < b.body.length) :
    (streams.grant b.worker b.requestId rpcStreamChunkBytes).snd = some (b.frameOf n) ∧
      (get (streams.grant b.worker b.requestId rpcStreamChunkBytes).fst b.requestId =
        if (n + 1) * rpcStreamChunkBytes < b.body.length then some (b.stateOf (n + 1)) else none) ∧
      ∀ id, id ≠ b.requestId →
        get (streams.grant b.worker b.requestId rpcStreamChunkBytes).fst id = get streams id := by
  have hbytes : ¬(rpcStreamChunkBytes < 1 || rpcStreamChunkBytes > rpcStreamChunkBytes) = true := by
    decide
  have hset : get (set streams b.requestId { b.stateOf n with credit := rpcStreamChunkBytes })
      b.requestId = some { b.stateOf n with credit := rpcStreamChunkBytes } := by
    simp
  have hcredit : (b.stateOf n).credit + rpcStreamChunkBytes = rpcStreamChunkBytes := Nat.zero_add _
  have hworker : ¬(b.stateOf n).worker ≠ b.worker := fun h => h rfl
  rw [Streams.grant, if_neg hbytes, hget]
  dsimp only
  rw [if_neg hworker, hcredit]
  obtain ⟨hframe, hstream, hother⟩ := pumpOne_spec hset hlt
  refine ⟨hframe, hstream, fun id hid => ?_⟩
  rw [hother id hid, get_set_of_ne hid]

end Streams

section Worker

variable {decodes : Bytes → Bool} {s : System} {b : Begun} {n : Nat}

-- What a worker has assembled with the chunk `n`.
def Begun.assembly (b : Begun) (n : Nat) : Assembly where
  chunks     := b.chunksOf (n + 1)
  totalBytes := n * rpcStreamChunkBytes + (b.chunkOf n).length
  seq        := n

-- The next chunk of a pending call is never refused.
theorem handle_frame (hpend : b.callId ∈ s.pending) (hasm : Assoc.get s.assembling b.callId = b.assembled n)
    (hlt : n * rpcStreamChunkBytes < b.body.length)
    (hmax : b.body.length ≤ rpcStreamMaxAccumulatedBytes) :
    s.handleRpcResponseStream decodes b.worker (b.frameOf n).payload =
      s.accept decodes b.callId (b.assembly n) (b.frameOf n).header (b.chunkOf n) := by
  have hle := Begun.length_chunkOf_le (Nat.le_of_lt hlt)
  have hcap : ¬n * rpcStreamChunkBytes + (b.chunkOf n).length > rpcStreamMaxAccumulatedBytes := by
    omega
  rw [System.handleRpcResponseStream, RpcResponseStreamFrame.payload, decodePayload_encode]
  dsimp only
  change (if b.callId ∉ s.pending then _ else _) = _
  rw [if_neg (not_not_intro hpend)]
  rw [show Assoc.get s.assembling (b.worker, (b.frameOf n).header.requestId) = _ from hasm]
  cases n
  case zero =>
    have hcap : ¬((b.frameOf 0).header.seq ≠ 0 ||
        (b.frameOf 0).chunk.length > rpcStreamMaxAccumulatedBytes) = true := by
      simpa [Begun.frameOf] using hcap
    dsimp only [Begun.assembled]
    rw [if_neg hcap]
    simp [Begun.assembly, Begun.chunksOf, Begun.frameOf, Begun.callId]
  case succ n =>
    have hcap : ¬((b.frameOf (n + 1)).header.seq ≠ n + 1 ||
        (n + 1) * rpcStreamChunkBytes + (b.frameOf (n + 1)).chunk.length >
          rpcStreamMaxAccumulatedBytes) = true := by
      simpa [Begun.frameOf] using hcap
    dsimp only [Begun.assembled]
    rw [if_neg hcap, Begun.assembly, Begun.chunksOf_succ (n := n + 1)]
    rfl

-- With the last chunk a worker has the body.
theorem accept_last (hlast : b.body.length ≤ (n + 1) * rpcStreamChunkBytes) :
    s.accept decodes b.callId (b.assembly n) (b.frameOf n).header (b.chunkOf n) =
      let t := { s with
        assembling := Assoc.delete s.assembling b.callId
        decoded    := s.decoded ++ [(b.callId, b.body)]
      }
      if decodes b.body then t.dropPendingCall b.callId else t := by
  have hfinal : (b.frameOf n).header.final = true := decide_eq_true hlast
  have hbody : (b.assembly n).chunks.flatten = b.body := Begun.flatten_of_last hlast
  rw [System.accept, if_pos hfinal, hbody]

-- Any other chunk is granted in full.
theorem accept_more (hmore : (n + 1) * rpcStreamChunkBytes < b.body.length) :
    s.accept decodes b.callId (b.assembly n) (b.frameOf n).header (b.chunkOf n) =
      { s with
        assembling := Assoc.set s.assembling b.callId (b.assembly n)
        credits    := s.credits ++ [b.creditOf]
      } := by
  have hfinal : ¬(b.frameOf n).header.final = true := by
    have := Nat.not_le.mpr hmore
    simpa [Begun.frameOf] using this
  rw [System.accept, if_neg hfinal, Begun.length_chunkOf_of_lt hmore]
  rfl

theorem assembled_succ (hmore : (n + 1) * rpcStreamChunkBytes < b.body.length) :
    b.assembled (n + 1) = some (b.assembly n) := by
  rw [Begun.assembled, Begun.assembly, Begun.length_chunkOf_of_lt hmore, Nat.succ_mul]

end Worker

end ResponseStream
