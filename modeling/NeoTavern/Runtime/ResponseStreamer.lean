import Mathlib
import NeoTavern.Lib.Assoc
import NeoTavern.Lib.Runs
import NeoTavern.Runtime.Forwarding

namespace ResponseStream

abbrev Bytes := List UInt8

structure Header where
  requestId : String
  seq       : Nat
  final     : Bool
  deriving DecidableEq

section Json

def quotation : Char := Char.ofNat 34
def backslash : Char := Char.ofNat 92

-- How `JSON.stringify` writes a character of a text.
def escape (c : Char) : List Char :=
  match c.toNat with
  | 8  => [backslash, 'b']
  | 9  => [backslash, 't']
  | 10 => [backslash, 'n']
  | 12 => [backslash, 'f']
  | 13 => [backslash, 'r']
  | 34 => [backslash, quotation]
  | 92 => [backslash, backslash]
  | n  => if n < 32 then [backslash, 'u', '0', '0', (n / 16).digitChar, (n % 16).digitChar] else [c]

def hexValue (c : Char) : Option Nat :=
  (List.range 16).find? fun n => n.digitChar = c

-- The character that begins with `c`, and what is left after it.
def unescape (c : Char) (rest : List Char) : Option (Char × List Char) :=
  if c = backslash then
    match rest with
    | 'b' :: rest => some (Char.ofNat 8, rest)
    | 't' :: rest => some (Char.ofNat 9, rest)
    | 'n' :: rest => some (Char.ofNat 10, rest)
    | 'f' :: rest => some (Char.ofNat 12, rest)
    | 'r' :: rest => some (Char.ofNat 13, rest)
    | 'u' :: u₁ :: u₂ :: u₃ :: u₄ :: rest => do
      let n₁ ← hexValue u₁
      let n₂ ← hexValue u₂
      let n₃ ← hexValue u₃
      let n₄ ← hexValue u₄
      some (Char.ofNat (4096 * n₁ + 256 * n₂ + 16 * n₃ + n₄), rest)
    | d :: rest   => if d = quotation || d = backslash || d = '/' then some (d, rest) else none
    | []          => none
  else if c.toNat < 32 then
    none
  else
    some (c, rest)

-- The text up to the closing quotation mark, and what is left after that.
def unquote : Nat → List Char → Option (List Char × List Char)
  | 0, _       => none
  | _, []      => none
  | n + 1, c :: rest =>
    if c = quotation then
      some ([], rest)
    else do
      let (d, rest) ← unescape c rest
      let (text, rest) ← unquote n rest
      some (d :: text, rest)

end Json

namespace Header

def opening : List Char := "\x7b\"requestId\":\"".toList
def seqKey : List Char := "\",\"seq\":".toList
def finalKey : List Char := ",\"final\":".toList
def closing (final : Bool) : List Char := if final then "true\x7d".toList else "false\x7d".toList

def stringify (h : Header) : List Char :=
  opening ++ h.requestId.toList.flatMap escape ++ seqKey ++ Nat.toDigits 10 h.seq ++ finalKey ++
    closing h.final

-- `JSON.parse`, on the texts that a streamer writes.
def parse (cs : List Char) : Option Header := do
  let cs ← cs.dropPrefix? opening
  let (text, cs) ← unquote cs.length cs
  let cs ← (quotation :: cs).dropPrefix? seqKey
  let digits := cs.takeWhile Char.isDigit
  let cs ← (cs.dropWhile Char.isDigit).dropPrefix? finalKey
  let header := { requestId := String.ofList text, seq := Nat.ofDigitChars 10 digits 0, final := true }
  if cs = closing true then
    some header
  else if cs = closing false then
    some { header with final := false }
  else
    none

end Header

def textEncode (cs : List Char) : Bytes :=
  cs.flatMap String.utf8EncodeChar

def textDecode (bytes : Bytes) : Option (List Char) :=
  bytes.toByteArray.utf8Decode?.map (·.toList)

-- The header as JSON, a NUL and the chunk.
def encodeResponseStreamPayload (header : Header) (chunk : Bytes) : Bytes :=
  textEncode header.stringify ++ 0 :: chunk

-- What a worker reads out of the payload of a frame.
def decodePayload (payload : Bytes) : Option (Header × Bytes) :=
  match payload.idxOf? 0 with
  | none | some 0  => none
  | some (nul + 1) => do
    let cs ← textDecode (payload.take (nul + 1))
    let header ← Header.parse cs
    some (header, payload.drop (nul + 2))

section RoundTrip

theorem unescape_escape (c : Char) (rest : List Char) : ∃ d tail, escape c = d :: tail ∧
    d ≠ quotation ∧ unescape d (tail ++ rest) = some (c, rest) := by
  have hc : Char.ofNat c.toNat = c := Char.ofNat_toNat c
  by_cases hctl : c.toNat < 32
  case pos =>
    unfold escape
    generalize c.toNat = n at hc hctl
    subst hc
    interval_cases n
    all_goals exact ⟨_, _, rfl, by decide, rfl⟩
  case neg =>
    by_cases hq : c = quotation
    case pos =>
      subst hq
      exact ⟨_, _, rfl, by decide, rfl⟩
    case neg =>
      by_cases hb : c = backslash
      case pos =>
        subst hb
        exact ⟨_, _, rfl, by decide, rfl⟩
      case neg =>
        have hq' : c.toNat ≠ 34 := fun h => hq <| by rw [← hc, h]; rfl
        have hb' : c.toNat ≠ 92 := fun h => hb <| by rw [← hc, h]; rfl
        refine ⟨c, [], ?_, hq, ?_⟩
        · unfold escape
          split
          all_goals first | omega | skip
          rw [if_neg hctl]
        · rw [unescape.eq_def, if_neg hb, if_neg hctl, List.nil_append]

theorem escape_ne_nil {c : Char} : 0 < (escape c).length := by
  have ⟨d, tail, heq, _⟩ := unescape_escape c []
  simp [heq]

theorem unquote_escape (text rest : List Char) {n : Nat} (hn : text.length < n) :
    unquote n (text.flatMap escape ++ quotation :: rest) = some (text, rest) := by
  induction text generalizing n
  case nil =>
    cases n
    case zero   => cases hn
    case succ n => simp [unquote]
  case cons c text ih =>
    cases n
    case zero   => cases hn
    case succ n =>
      have ⟨d, tail, heq, hne, hun⟩ := unescape_escape c (text.flatMap escape ++ quotation :: rest)
      have ih := ih (n := n) (by simpa using hn)
      rw [List.flatMap_cons, heq, List.append_assoc, List.cons_append, unquote, if_neg hne, hun]
      simp [ih]

theorem length_le_flatMap_escape (text : List Char) : text.length ≤ (text.flatMap escape).length := by
  induction text
  case nil            => exact Nat.le_refl _
  case cons c text ih =>
    have := escape_ne_nil (c := c)
    rw [List.flatMap_cons, List.length_append, List.length_cons]
    omega

theorem dropPrefix?_append {α : Type} [BEq α] [LawfulBEq α] (l rest : List α) :
    (l ++ rest).dropPrefix? l = some rest :=
  List.dropPrefix?_append_of_beq rest (beq_self_eq_true l)

namespace Header

-- What follows on the text of a header's identifier.
def tail (h : Header) : List Char :=
  Nat.toDigits 10 h.seq ++ (finalKey ++ closing h.final)

theorem stringify_eq (h : Header) :
    h.stringify = opening ++ (h.requestId.toList.flatMap escape ++ (seqKey ++ h.tail)) := by
  simp only [stringify, tail, List.append_assoc]

theorem span_tail (h : Header) : h.tail.takeWhile Char.isDigit = Nat.toDigits 10 h.seq ∧
    h.tail.dropWhile Char.isDigit = finalKey ++ closing h.final := by
  have hdigits : ∀ c ∈ Nat.toDigits 10 h.seq, c.isDigit := fun c hc =>
    Nat.isDigit_of_mem_toDigits (by decide) (by decide) hc
  have hkey (rest : List Char) : finalKey ++ rest = ',' :: (finalKey.tail ++ rest) := rfl
  rw [tail, List.takeWhile_append_of_pos hdigits, List.dropWhile_append_of_pos hdigits, hkey]
  exact ⟨by simp [Char.isDigit], by simp [Char.isDigit]⟩

theorem parse_stringify (h : Header) : parse h.stringify = some h := by
  have hkey (rest : List Char) : seqKey ++ rest = quotation :: (seqKey.tail ++ rest) := rfl
  have hle := length_le_flatMap_escape h.requestId.toList
  have hun : unquote (h.requestId.toList.flatMap escape ++ (seqKey ++ h.tail)).length
      (h.requestId.toList.flatMap escape ++ (seqKey ++ h.tail)) =
        some (h.requestId.toList, seqKey.tail ++ h.tail) := by
    rw [hkey]
    refine unquote_escape _ _ ?_
    rw [List.length_append, List.length_cons]
    omega
  have ⟨htake, hdrop⟩ := h.span_tail
  rw [parse, stringify_eq, dropPrefix?_append]
  simp only [Option.bind_eq_bind, Option.bind_some, hun, ← hkey, dropPrefix?_append, htake, hdrop,
    Nat.ofDigitChars_ten_toDigits, String.ofList_toList]
  rcases h with ⟨requestId, seq, final⟩
  cases final <;> rfl

end Header

-- The bytes of a text without NUL have no zero.
theorem mem_utf8EncodeChar {c : Char} (h : (0 : UInt8) ∈ String.utf8EncodeChar c) : c.toNat = 0 := by
  have hbyte {n : Nat} (h : (0 : UInt8) = UInt8.ofNat n) (hn : n < 256) : n = 0 := by
    have := congrArg UInt8.toNat h
    rw [UInt8.toNat_ofNat'] at this
    rw [← Nat.mod_eq_of_lt hn]
    exact this.symm
  unfold String.utf8EncodeChar at h
  change c.val.toNat = 0
  dsimp only at h
  split at h
  case isTrue hle => exact hbyte (List.mem_singleton.mp h) (by omega)
  case isFalse    =>
    exfalso
    split at h
    case isTrue =>
      simp only [List.mem_cons, List.not_mem_nil, or_false] at h
      rcases h with h | h
      all_goals
        have := hbyte h (by omega)
        omega
    case isFalse =>
      split at h
      case isTrue =>
        simp only [List.mem_cons, List.not_mem_nil, or_false] at h
        rcases h with h | h | h
        all_goals
          have := hbyte h (by omega)
          omega
      case isFalse =>
        simp only [List.mem_cons, List.not_mem_nil, or_false] at h
        rcases h with h | h | h | h
        all_goals
          have := hbyte h (by omega)
          omega

theorem ne_nul_of_all {z : List Char} {d : Char} (hall : z.all (fun c => c.toNat ≠ 0) = true) (h : d ∈ z) :
    d.toNat ≠ 0 := by
  simpa using List.all_eq_true.mp hall d h

theorem escape_ne_nul {c d : Char} (h : d ∈ escape c) : d.toNat ≠ 0 := by
  have hc : Char.ofNat c.toNat = c := Char.ofNat_toNat c
  by_cases hctl : c.toNat < 32
  case pos =>
    generalize c.toNat = n at hc hctl
    subst hc
    revert h
    interval_cases n
    all_goals exact ne_nul_of_all (by decide)
  case neg =>
    unfold escape at h
    split at h
    all_goals
      first
        | omega
        | skip
    · exact ne_nul_of_all (by decide) h
    · exact ne_nul_of_all (by decide) h
    · rw [if_neg hctl] at h
      rw [List.mem_singleton.mp h]
      omega

theorem stringify_ne_nul (h : Header) : ∀ c ∈ h.stringify, c.toNat ≠ 0 := by
  intro c hc
  rw [Header.stringify_eq, Header.tail] at hc
  simp only [List.mem_append, List.mem_flatMap] at hc
  rcases hc with hc | ⟨d, _, hc⟩ | hc | hc | hc | hc
  · exact ne_nul_of_all (by decide) hc
  · exact escape_ne_nul hc
  · exact ne_nul_of_all (by decide) hc
  · have := Nat.isDigit_of_mem_toDigits (by decide) (by decide) hc
    intro hzero
    obtain rfl : c = Char.ofNat 0 := by rw [← hzero, Char.ofNat_toNat]
    revert this
    decide
  · exact ne_nul_of_all (by decide) hc
  · have hclosing (final : Bool) : (Header.closing final).all (fun c => c.toNat ≠ 0) = true := by
      cases final
      all_goals decide
    exact ne_nul_of_all (hclosing _) hc

theorem zero_not_mem_textEncode (h : Header) : (0 : UInt8) ∉ textEncode h.stringify := by
  intro hmem
  have ⟨c, hc, hzero⟩ := List.mem_flatMap.mp hmem
  exact stringify_ne_nul h c hc <| mem_utf8EncodeChar hzero

theorem idxOf?_append_cons {l r : Bytes} (h : (0 : UInt8) ∉ l) : (l ++ 0 :: r).idxOf? 0 = some l.length := by
  have hnone : l.idxOf? 0 = none := by simpa using h
  rw [List.idxOf?, List.findIdx?_append, ← List.idxOf?, hnone]
  simp [List.idxOf?_cons]

theorem textDecode_textEncode (cs : List Char) : textDecode (textEncode cs) = some cs := by
  have h : (textEncode cs).toByteArray.utf8Decode? = some cs.toArray := List.utf8Decode?_utf8Encode
  rw [textDecode, h]
  rfl

-- A worker reads the header and the chunk that the streamer has written, whatever the bytes.
theorem decodePayload_encode (header : Header) (chunk : Bytes) :
    decodePayload (encodeResponseStreamPayload header chunk) = some (header, chunk) := by
  have hidx := idxOf?_append_cons (r := chunk) (zero_not_mem_textEncode header)
  have ⟨n, hn⟩ : ∃ n, (textEncode header.stringify).length = n + 1 := by
    refine Nat.exists_eq_succ_of_ne_zero fun hzero => ?_
    have hnil := List.flatMap_eq_nil_iff.mp <| List.eq_nil_of_length_eq_zero hzero
    have hmem : Char.ofNat 123 ∈ header.stringify := by
      rw [Header.stringify_eq]
      exact List.mem_append_left _ (by decide)
    exact String.utf8EncodeChar_ne_nil <| hnil _ hmem
  have htake : (textEncode header.stringify ++ 0 :: chunk).take (n + 1) = textEncode header.stringify := by
    rw [← hn, List.take_left]
  have hdrop : (textEncode header.stringify ++ 0 :: chunk).drop (n + 2) = chunk := by
    rw [show n + 2 = (textEncode header.stringify).length + 1 by omega, ← List.drop_drop, List.drop_left]
    rfl
  rw [decodePayload, encodeResponseStreamPayload, hidx, hn]
  simp only [htake, hdrop, textDecode_textEncode, Header.parse_stringify, Option.bind_eq_bind,
    Option.bind_some]

end RoundTrip

end ResponseStream

namespace ResponseStream

open Forwarding (BrokerWorkerRef)

def rpcStreamChunkBytes := 256 * 1024
def rpcStreamInitialCreditBytes := rpcStreamChunkBytes
def rpcStreamMaxConcurrent := 16
def rpcStreamMaxAccumulatedBytes := 16 * 1024 * 1024

structure RpcResponseStreamFrame where
  worker : BrokerWorkerRef
  header : Header
  chunk  : Bytes
  deriving DecidableEq

def RpcResponseStreamFrame.payload (f : RpcResponseStreamFrame) : Bytes :=
  encodeResponseStreamPayload f.header f.chunk

structure ResponseStreamState where
  worker : BrokerWorkerRef
  body   : Bytes
  offset : Nat := 0
  credit : Nat := rpcStreamInitialCreditBytes
  seq    : Nat := 0
  deriving DecidableEq

structure BeginError where
  code    : String
  message : String
  deriving DecidableEq

-- The registry of a `ResponseStreamer`.
abbrev Streams := List (String × ResponseStreamState)

namespace Streams

open Assoc

def pumpOne (streams : Streams) (requestId : String) : Streams × Option RpcResponseStreamFrame :=
  match get streams requestId with
  | none       => (streams, none)
  | some state =>
    if state.offset ≥ state.body.length then
      (delete streams requestId, none)
    else if state.credit < rpcStreamChunkBytes then
      (streams, none)
    else
      let stop := min (state.offset + rpcStreamChunkBytes) state.body.length
      let chunk := (state.body.drop state.offset).take (stop - state.offset)
      let final : Bool := stop = state.body.length
      let streams := set streams requestId { state with
        offset := stop
        credit := state.credit - chunk.length
        seq    := state.seq + 1
      }
      (if final then delete streams requestId else streams,
        some { worker := state.worker, header := { requestId, seq := state.seq, final }, chunk })

def begin (streams : Streams) (worker : BrokerWorkerRef) (requestId : String) (body : Bytes) :
    Streams × Except BeginError RpcResponseStreamFrame :=
  if body.length > rpcStreamMaxAccumulatedBytes then
    (streams, .error {
      code    := "RESPONSE_STREAM_TOO_LARGE"
      message := "response body exceeds the streaming cap"
    })
  else if (get streams requestId).isSome then
    (streams, .error {
      code    := "RESPONSE_STREAM_DUPLICATE"
      message := "a response stream for this requestId is already in flight"
    })
  else if streams.length ≥ rpcStreamMaxConcurrent then
    (streams, .error {
      code    := "RESPONSE_STREAM_LIMIT"
      message := "too many concurrent response streams"
    })
  else
    match pumpOne (set streams requestId { worker := worker, body }) requestId with
    | (streams, some frame) => (streams, .ok frame)
    | (streams, none)       =>
      (delete streams requestId,
        .error { code := "RESPONSE_STREAM_EMPTY", message := "empty response body" })

def grant (streams : Streams) (worker : BrokerWorkerRef) (requestId : String) (bytes : Nat) :
    Streams × Option RpcResponseStreamFrame :=
  if bytes < 1 || bytes > rpcStreamChunkBytes then
    (streams, none)
  else
    match get streams requestId with
    | none       => (streams, none)
    | some state =>
      if state.worker ≠ worker then
        (streams, none)
      else
        pumpOne (set streams requestId { state with credit := state.credit + bytes }) requestId

end Streams

-- The chunks of a response that a worker has got so far.
structure Assembly where
  chunks     : List Bytes
  totalBytes : Nat
  seq        : Nat
  deriving DecidableEq

structure PluginRuntimeStreamCreditBody where
  worker    : BrokerWorkerRef
  requestId : String
  bytes     : Nat
  deriving DecidableEq

-- A call of a worker.
abbrev CallId := BrokerWorkerRef × String

-- A response body whose streaming has begun.
structure Begun where
  worker    : BrokerWorkerRef
  requestId : String
  body      : Bytes
  deriving DecidableEq

-- The streamer of the host, the workers with their pending calls, and what is on its way between them.
-- `spawned`, `calls`, `begun`, `sent`, `granted` and `decoded` tell what has happened so far.
structure System where
  streams    : Streams := []
  wire       : List RpcResponseStreamFrame := []
  credits    : List PluginRuntimeStreamCreditBody := []
  workers    : List BrokerWorkerRef := []
  pending    : List CallId := []
  assembling : List (CallId × Assembly) := []
  spawned    : List BrokerWorkerRef := []
  calls      : List CallId := []
  begun      : List Begun := []
  sent       : List RpcResponseStreamFrame := []
  granted    : List PluginRuntimeStreamCreditBody := []
  decoded    : List (CallId × Bytes) := []
  deriving DecidableEq

-- A call is settled by a response of another kind, by its deadline, a revocation or its caller.
inductive Event
  | spawn (worker : BrokerWorkerRef)
  | exit (worker : BrokerWorkerRef)
  | call (worker : BrokerWorkerRef) (requestId : String)
  | settle (worker : BrokerWorkerRef) (requestId : String)
  | respond (worker : BrokerWorkerRef) (requestId : String) (body : Bytes)
  | deliver
  | credit
  deriving DecidableEq

namespace System

-- Whether an assembled body is a response. A body names the request that it is the response to.
variable (decodes : Bytes → Bool)

def dropPendingCall (s : System) (c : CallId) : System :=
  { s with pending := s.pending.filter (· ≠ c) }

def rejectResponseStream (s : System) (c : CallId) : System :=
  { s with assembling := Assoc.delete s.assembling c }.dropPendingCall c

-- A chunk has been added to what there is of a response.
def accept (s : System) (c : CallId) (a : Assembly) (header : Header) (chunk : Bytes) : System :=
  if header.final then
    let assembled := a.chunks.flatten
    let s := { s with
      assembling := Assoc.delete s.assembling c
      decoded    := s.decoded ++ [(c, assembled)]
    }
    if decodes assembled then s.dropPendingCall c else s
  else
    { s with
      assembling := Assoc.set s.assembling c a
      credits    := s.credits ++ [{ worker := c.fst, requestId := c.snd, bytes := chunk.length }]
    }

def handleRpcResponseStream (s : System) (worker : BrokerWorkerRef) (payload : Bytes) : System :=
  match decodePayload payload with
  | none                 => s
  | some (header, chunk) =>
    let c := (worker, header.requestId)
    if c ∉ s.pending then
      s
    else
      match Assoc.get s.assembling c with
      | none          =>
        if header.seq ≠ 0 || chunk.length > rpcStreamMaxAccumulatedBytes then
          s.rejectResponseStream c
        else
          s.accept decodes c { chunks := [chunk], totalBytes := chunk.length, seq := 0 } header chunk
      | some existing =>
        if header.seq ≠ existing.seq + 1 ||
            existing.totalBytes + chunk.length > rpcStreamMaxAccumulatedBytes then
          s.rejectResponseStream c
        else
          s.accept decodes c {
            chunks     := existing.chunks ++ [chunk]
            totalBytes := existing.totalBytes + chunk.length
            seq        := header.seq
          } header chunk

def send (s : System) (streams : Streams) (frame : Option RpcResponseStreamFrame) : System :=
  { s with streams, wire := s.wire ++ frame.toList, sent := s.sent ++ frame.toList }

-- The host answers a request that has been made, and answers it once. Neither the workers nor the
-- requests share their names.
def step (s : System) : Event → System
  | .spawn worker            =>
    if worker ∈ s.spawned then
      s
    else
      { s with spawned := s.spawned ++ [worker], workers := s.workers ++ [worker] }
  | .exit worker             => { s with
      workers    := s.workers.filter (· ≠ worker)
      pending    := s.pending.filter (·.fst ≠ worker)
      assembling := s.assembling.filter (·.fst.fst ≠ worker)
    }
  | .call worker requestId   =>
    if worker ∉ s.workers || s.calls.any (·.snd = requestId) then
      s
    else
      { s with
        calls   := s.calls ++ [(worker, requestId)]
        pending := s.pending ++ [(worker, requestId)]
      }
  | .settle worker requestId => s.dropPendingCall (worker, requestId)
  | .respond worker requestId body =>
    if (worker, requestId) ∉ s.calls || s.begun.any (·.requestId = requestId) then
      s
    else
      match s.streams.begin worker requestId body with
      | (streams, .error _)  => { s with streams }
      | (streams, .ok frame) =>
        let stream : Begun := { worker := worker, requestId, body }
        { s with begun := s.begun ++ [stream] }.send streams (some frame)
  | .deliver                 =>
    match s.wire with
    | []        => s
    | f :: wire =>
      if f.worker ∈ s.workers then
        { s with wire }.handleRpcResponseStream decodes f.worker f.payload
      else
        { s with wire }
  | .credit                  =>
    match s.credits with
    | []           => s
    | c :: credits =>
      let (streams, frame) := s.streams.grant c.worker c.requestId c.bytes
      { s with credits, granted := s.granted ++ [c] }.send streams frame

end System
end ResponseStream
