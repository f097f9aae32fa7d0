import Mathlib
import NeoTavern.Runtime.StreamDelivery

namespace ResponseStream.System

open Forwarding (BrokerWorkerRef)

-- What concerns the request `id`.
def sentOf (s : System) (id : String) : List RpcResponseStreamFrame :=
  s.sent.filter (·.header.requestId = id)

def wireOf (s : System) (id : String) : List RpcResponseStreamFrame :=
  s.wire.filter (·.header.requestId = id)

def creditsOf (s : System) (id : String) : List PluginRuntimeStreamCreditBody :=
  s.credits.filter (·.requestId = id)

def grantedOf (s : System) (id : String) : List PluginRuntimeStreamCreditBody :=
  s.granted.filter (·.requestId = id)

def decodedOf (s : System) (id : String) : List (CallId × Bytes) :=
  s.decoded.filter (·.fst.snd = id)

-- A step that has nothing to do with the request `id`, unless it ends the calls of a worker.
structure Keeps (id : String) (s t : System) : Prop where
  stream     : Assoc.get t.streams id = Assoc.get s.streams id
  sent       : t.sentOf id = s.sentOf id
  wire       : t.wireOf id = s.wireOf id
  credits    : t.creditsOf id = s.creditsOf id
  granted    : t.grantedOf id = s.grantedOf id
  decoded    : t.decodedOf id = s.decodedOf id
  assembling : ∀ worker, Assoc.get t.assembling (worker, id) = Assoc.get s.assembling (worker, id) ∨
    Assoc.get t.assembling (worker, id) = none ∧ (worker, id) ∉ t.pending

structure Idle (s : System) (id : String) : Prop where
  stream     : Assoc.get s.streams id = none
  sent       : s.sentOf id = []
  wire       : s.wireOf id = []
  credits    : s.creditsOf id = []
  granted    : s.grantedOf id = []
  decoded    : s.decodedOf id = []
  assembling : ∀ worker, Assoc.get s.assembling (worker, id) = none

-- Where the chunk `n` of a stream is, the last one that has been sent: on its way, consumed and
-- paid for, decoded with all the others, or dropped by a worker that no longer waits.
inductive Phase (s : System) (b : Begun) (n : Nat) : Prop
  | sent (wire : s.wireOf b.requestId = [b.frameOf n]) (credits : s.creditsOf b.requestId = [])
      (decoded : s.decodedOf b.requestId = [])
      (assembling : b.callId ∈ s.pending → Assoc.get s.assembling b.callId = b.assembled n)
  | consumed (wire : s.wireOf b.requestId = []) (credits : s.creditsOf b.requestId = [b.creditOf])
      (decoded : s.decodedOf b.requestId = []) (more : (n + 1) * rpcStreamChunkBytes < b.body.length)
      (assembling : b.callId ∈ s.pending → Assoc.get s.assembling b.callId = b.assembled (n + 1))
  | complete (wire : s.wireOf b.requestId = []) (credits : s.creditsOf b.requestId = [])
      (decoded : s.decodedOf b.requestId = [(b.callId, b.body)])
      (last : b.body.length ≤ (n + 1) * rpcStreamChunkBytes)
  | dropped (wire : s.wireOf b.requestId = []) (credits : s.creditsOf b.requestId = [])
      (decoded : s.decodedOf b.requestId = []) (gone : b.callId ∉ s.pending)

-- A stream that has sent its chunks up to `n`.
structure Sending (s : System) (b : Begun) (n : Nat) : Prop where
  size    : b.body.length ≤ rpcStreamMaxAccumulatedBytes
  cut     : n * rpcStreamChunkBytes < b.body.length
  stream  : Assoc.get s.streams b.requestId =
    if (n + 1) * rpcStreamChunkBytes < b.body.length then some (b.stateOf (n + 1)) else none
  sent    : s.sentOf b.requestId = (List.range (n + 1)).map b.frameOf
  granted : s.grantedOf b.requestId = List.replicate n b.creditOf

structure Running (s : System) (b : Begun) (n : Nat) : Prop extends Sending s b n where
  phase : s.Phase b n

variable {s t : System} {b : Begun} {n : Nat} {id : String}

theorem Idle.keeps (h : s.Idle id) (k : Keeps id s t) : t.Idle id where
  stream     := k.stream.trans h.stream
  sent       := k.sent.trans h.sent
  wire       := k.wire.trans h.wire
  credits    := k.credits.trans h.credits
  granted    := k.granted.trans h.granted
  decoded    := k.decoded.trans h.decoded
  assembling := by
    intro worker
    cases k.assembling worker
    case inl heq  => rw [heq, h.assembling]
    case inr hnil => exact hnil.left

-- What a worker has assembled of a call that it still waits for stays.
theorem Keeps.assembled {a : Option Assembly} (k : Keeps b.requestId s t)
    (hpend : b.callId ∈ t.pending → b.callId ∈ s.pending)
    (h : b.callId ∈ s.pending → Assoc.get s.assembling b.callId = a) (hmem : b.callId ∈ t.pending) :
    Assoc.get t.assembling b.callId = a := by
  cases k.assembling b.worker
  case inl heq  => exact heq.trans <| h <| hpend hmem
  case inr hnil => exact absurd hmem hnil.right

theorem Phase.keeps (h : s.Phase b n) (k : Keeps b.requestId s t)
    (hpend : b.callId ∈ t.pending → b.callId ∈ s.pending) : t.Phase b n := by
  cases h
  case sent wire credits decoded assembling =>
    exact .sent (k.wire.trans wire) (k.credits.trans credits) (k.decoded.trans decoded)
      (k.assembled hpend assembling)
  case consumed wire credits decoded more assembling =>
    exact .consumed (k.wire.trans wire) (k.credits.trans credits) (k.decoded.trans decoded) more
      (k.assembled hpend assembling)
  case complete wire credits decoded last =>
    exact .complete (k.wire.trans wire) (k.credits.trans credits) (k.decoded.trans decoded) last
  case dropped wire credits decoded gone =>
    exact .dropped (k.wire.trans wire) (k.credits.trans credits) (k.decoded.trans decoded)
      fun h => gone <| hpend h

theorem Running.keeps (h : s.Running b n) (k : Keeps b.requestId s t)
    (hpend : b.callId ∈ t.pending → b.callId ∈ s.pending) : t.Running b n where
  size    := h.size
  cut     := h.cut
  stream  := k.stream.trans h.stream
  sent    := k.sent.trans h.sent
  granted := k.granted.trans h.granted
  phase   := h.phase.keeps k hpend

-- What holds in every state, whatever the workers do.
structure Sound (s : System) : Prop where
  alive   : ∀ c ∈ s.pending, c.fst ∈ s.workers
  called  : ∀ c ∈ s.pending, c ∈ s.calls
  unique  : (s.calls.map (·.snd)).Nodup
  asked   : ∀ b ∈ s.begun, b.callId ∈ s.calls
  once    : (s.begun.map (·.requestId)).Nodup
  running : ∀ b ∈ s.begun, ∃ n, s.Running b n
  idle    : ∀ id, (∀ b ∈ s.begun, b.requestId ≠ id) → s.Idle id

theorem Sound.init : Sound {} where
  alive _ h   := nomatch h
  called _ h  := nomatch h
  unique      := .nil
  asked _ h   := nomatch h
  once        := .nil
  running _ h := nomatch h
  idle _ _    := ⟨rfl, rfl, rfl, rfl, rfl, rfl, fun _ => rfl⟩

-- A step that begins no stream and makes no call, and keeps all that runs.
theorem Sound.of_keeps (h : s.Sound) (hcalls : t.calls = s.calls) (hbegun : t.begun = s.begun)
    (hworkers : ∀ c ∈ t.pending, c.fst ∈ s.workers → c.fst ∈ t.workers)
    (hpend : ∀ c ∈ t.pending, c ∈ s.pending)
    (hother : ∀ id, (∀ b ∈ s.begun, b.requestId ≠ id) → Keeps id s t)
    (hrun : ∀ b ∈ s.begun, ∀ n, s.Running b n → ∃ n, t.Running b n) : t.Sound where
  alive c hc    := hworkers c hc <| h.alive c <| hpend c hc
  called c hc   := hcalls ▸ h.called c (hpend c hc)
  unique        := hcalls ▸ h.unique
  asked b hb    := hcalls ▸ h.asked b (hbegun ▸ hb)
  once          := hbegun ▸ h.once
  running b hb  := by
    have ⟨n, hn⟩ := h.running b <| hbegun ▸ hb
    exact hrun b (hbegun ▸ hb) n hn
  idle id hid   := by
    have hid : ∀ b ∈ s.begun, b.requestId ≠ id := fun b hb => hid b <| hbegun ▸ hb
    exact (h.idle id hid).keeps <| hother id hid

theorem Sound.of_keeps_all (h : s.Sound) (hcalls : t.calls = s.calls) (hbegun : t.begun = s.begun)
    (hworkers : ∀ c ∈ t.pending, c.fst ∈ s.workers → c.fst ∈ t.workers)
    (hpend : ∀ c ∈ t.pending, c ∈ s.pending) (hkeeps : ∀ id, Keeps id s t) : t.Sound :=
  h.of_keeps hcalls hbegun hworkers hpend (fun id _ => hkeeps id) fun b _ n hn =>
    ⟨n, hn.keeps (hkeeps b.requestId) (hpend b.callId)⟩

-- A stream is the only one with its identifier.
theorem Sound.eq_of_requestId (h : s.Sound) {b c : Begun} (hb : b ∈ s.begun) (hc : c ∈ s.begun)
    (heq : b.requestId = c.requestId) : b = c :=
  List.inj_on_of_nodup_map h.once hb hc heq

-- What is on its way for a request has been sent by its stream.
theorem Sound.begun_of_wire (h : s.Sound) {f : RpcResponseStreamFrame} {wire : List RpcResponseStreamFrame}
    (hwire : s.wire = f :: wire) :
    ∃ b ∈ s.begun, b.requestId = f.header.requestId := by
  by_contra hnone
  push Not at hnone
  have hnil := (h.idle f.header.requestId hnone).wire
  simp [wireOf, hwire] at hnil

theorem Sound.begun_of_credits (h : s.Sound) {c : PluginRuntimeStreamCreditBody}
    {credits : List PluginRuntimeStreamCreditBody} (hcredits : s.credits = c :: credits) :
    ∃ b ∈ s.begun, b.requestId = c.requestId := by
  by_contra hnone
  push Not at hnone
  have hnil := (h.idle c.requestId hnone).credits
  simp [creditsOf, hcredits] at hnil

section Steps

variable {decodes : Bytes → Bool} {worker : BrokerWorkerRef}

theorem sound_spawn (h : s.Sound) : (s.step decodes (.spawn worker)).Sound := by
  rw [step]
  split
  case isTrue  => exact h
  case isFalse =>
    refine h.of_keeps_all rfl rfl (fun c _ hc => ?_) (fun _ hc => hc) fun id => ?_
    · exact List.mem_append_left _ hc
    · exact ⟨rfl, rfl, rfl, rfl, rfl, rfl, fun _ => .inl rfl⟩

theorem sound_exit (h : s.Sound) : (s.step decodes (.exit worker)).Sound := by
  refine h.of_keeps_all rfl rfl (fun c hc halive => ?_) (fun c hc => ?_) fun id => ?_
  · exact List.mem_filter.mpr ⟨halive, (List.mem_filter.mp hc).right⟩
  · exact (List.mem_filter.mp hc).left
  · refine ⟨rfl, rfl, rfl, rfl, rfl, rfl, fun other => ?_⟩
    have hget := Assoc.get_filter (m := s.assembling) (k := (other, id))
      (p := fun c => decide (c.fst ≠ worker))
    by_cases hother : other = worker
    case pos =>
      refine .inr ⟨?_, fun hmem => ?_⟩
      · simpa [step, hother] using hget
      · simpa [hother] using (List.mem_filter.mp hmem).right
    case neg => exact .inl <| by simpa [step, hother] using hget

theorem sound_call (h : s.Sound) : (s.step decodes (.call worker id)).Sound := by
  rw [step]
  split
  case isTrue          => exact h
  case isFalse hallows =>
    simp only [Bool.or_eq_true, decide_eq_true_eq, not_or, List.any_eq_true, not_exists, not_and] at hallows
    have hlive : worker ∈ s.workers := not_not.mp hallows.left
    have hfresh : ∀ c ∈ s.calls, c.snd ≠ id := hallows.right
    have hkeeps (id' : String) : Keeps id' s { s with
        calls := s.calls ++ [(worker, id)]
        pending := s.pending ++ [(worker, id)]
      } :=
      ⟨rfl, rfl, rfl, rfl, rfl, rfl, fun _ => .inl rfl⟩
    constructor
    case alive =>
      intro c hc
      cases List.mem_append.mp hc
      case inl hc => exact h.alive c hc
      case inr hc =>
        rw [List.mem_singleton.mp hc]
        exact hlive
    case called =>
      intro c hc
      cases List.mem_append.mp hc
      case inl hc => exact List.mem_append_left _ <| h.called c hc
      case inr hc => exact List.mem_append_right _ hc
    case unique =>
      rw [List.map_append, List.nodup_append]
      refine ⟨h.unique, by simp, fun x hx y hy heq => ?_⟩
      have ⟨c, hc, hcx⟩ := List.mem_map.mp hx
      have hy : y = id := by simpa using hy
      exact hfresh c hc <| hcx.trans <| heq.trans hy
    case asked => exact fun b hb => List.mem_append_left _ <| h.asked b hb
    case once  => exact h.once
    case running =>
      intro b hb
      have ⟨n, hn⟩ := h.running b hb
      refine ⟨n, hn.keeps (hkeeps b.requestId) fun hmem => ?_⟩
      cases List.mem_append.mp hmem
      case inl hmem => exact hmem
      case inr hmem =>
        have heq := congrArg Prod.snd <| List.mem_singleton.mp hmem
        exact absurd heq <| hfresh b.callId <| h.asked b hb
    case idle => exact fun id' hid' => (h.idle id' hid').keeps (hkeeps id')

theorem sound_settle (h : s.Sound) : (s.step decodes (.settle worker id)).Sound := by
  refine h.of_keeps_all rfl rfl (fun _ _ hc => hc) (fun c hc => ?_) fun id' => ?_
  · exact (List.mem_filter.mp hc).left
  · exact ⟨rfl, rfl, rfl, rfl, rfl, rfl, fun _ => .inl rfl⟩

theorem keeps_send {streams : Streams} {frame : Option RpcResponseStreamFrame}
    (hstreams : Assoc.get streams id = Assoc.get s.streams id)
    (hframe : ∀ f ∈ frame, f.header.requestId ≠ id) : Keeps id s (s.send streams frame) where
  stream       := hstreams
  sent         := by
    cases frame
    case none   => simp [sentOf, send]
    case some f => simp [sentOf, send, hframe f rfl]
  wire         := by
    cases frame
    case none   => simp [wireOf, send]
    case some f => simp [wireOf, send, hframe f rfl]
  credits      := rfl
  granted      := rfl
  decoded      := rfl
  assembling _ := .inl rfl

-- A stream that begins.
theorem running_begin (begun : List Begun) (h : s.Idle b.requestId) (hfits : Fits s.streams b.body) :
    Running ({ s with begun }.send (s.streams.begin b.worker b.requestId b.body).fst
      (some (b.frameOf 0))) b 0 := by
  have ⟨_, hstream, _⟩ := begin_of_fits h.stream hfits
  have hsent := h.sent
  have hwire := h.wire
  have hid : (b.frameOf 0).header.requestId = b.requestId := rfl
  have hsent' : System.sentOf ({ s with begun }.send
      (s.streams.begin b.worker b.requestId b.body).fst (some (b.frameOf 0))) b.requestId =
        [b.frameOf 0] := by
    rw [sentOf, send, Option.toList_some, List.filter_append]
    change s.sentOf b.requestId ++ _ = _
    simp [hsent, hid]
  have hwire' : System.wireOf ({ s with begun }.send
      (s.streams.begin b.worker b.requestId b.body).fst (some (b.frameOf 0))) b.requestId =
        [b.frameOf 0] := by
    rw [wireOf, send, Option.toList_some, List.filter_append]
    change s.wireOf b.requestId ++ _ = _
    simp [hwire, hid]
  exact {
    size    := hfits.right.left
    cut     := by simpa using hfits.left
    stream  := by simpa [send] using hstream
    sent    := hsent'
    granted := h.granted
    phase   := .sent hwire' h.credits h.decoded fun _ => h.assembling b.worker
  }

theorem sound_respond {body : Bytes} (h : s.Sound) :
    (s.step decodes (.respond worker id body)).Sound := by
  let b : Begun := { worker := worker, requestId := id, body := body }
  rw [step]
  split
  case isTrue          => exact h
  case isFalse hallows =>
    simp only [Bool.or_eq_true, decide_eq_true_eq, not_or, List.any_eq_true, not_exists, not_and] at hallows
    have hasked : b.callId ∈ s.calls := not_not.mp hallows.left
    have hfresh : ∀ c ∈ s.begun, c.requestId ≠ b.requestId := hallows.right
    have hidle := h.idle b.requestId hfresh
    by_cases hfits : Fits s.streams b.body
    case pos =>
      have ⟨hframe, _, hother⟩ := begin_of_fits hidle.stream hfits
      have hrun := running_begin (s.begun ++ [b]) hidle hfits
      cases hbegin : s.streams.begin b.worker b.requestId b.body
      case mk streams result =>
        rw [hbegin] at hframe hother hrun
        dsimp only at hframe hother hrun
        subst hframe
        dsimp only
        have hkeeps : ∀ id', id' ≠ b.requestId →
            Keeps id' s ({ s with begun := s.begun ++ [b] }.send streams (some (b.frameOf 0))) := by
          intro id' hid'
          have k : Keeps id' { s with begun := s.begun ++ [b] }
              ({ s with begun := s.begun ++ [b] }.send streams (some (b.frameOf 0))) :=
            keeps_send (hother id' hid') fun f hf => Option.mem_some.mp hf ▸ fun heq => hid' heq.symm
          exact ⟨k.stream, k.sent, k.wire, k.credits, k.granted, k.decoded, k.assembling⟩
        constructor
        case alive  => exact h.alive
        case called => exact h.called
        case unique => exact h.unique
        case asked  =>
          intro c hc
          cases List.mem_append.mp hc
          case inl hc => exact h.asked c hc
          case inr hc =>
            rw [List.mem_singleton.mp hc]
            exact hasked
        case once =>
          change ((s.begun ++ [b]).map (·.requestId)).Nodup
          rw [List.map_append, List.nodup_append]
          refine ⟨h.once, by simp, fun x hx y hy heq => ?_⟩
          have ⟨c, hc, hcx⟩ := List.mem_map.mp hx
          have hy : y = b.requestId := by simpa using hy
          exact hfresh c hc <| hcx.trans <| heq.trans hy
        case running =>
          intro c hc
          cases List.mem_append.mp hc
          case inl hc =>
            have ⟨n, hn⟩ := h.running c hc
            exact ⟨n, hn.keeps (hkeeps c.requestId <| hfresh c hc) fun hmem => hmem⟩
          case inr hc =>
            rw [List.mem_singleton.mp hc]
            exact ⟨0, hrun⟩
        case idle =>
          intro id' hid'
          have hne : id' ≠ b.requestId := by
            intro heq
            exact hid' b (List.mem_append_right _ <| List.mem_singleton_self b) heq.symm
          exact (h.idle id' fun c hc => hid' c <| List.mem_append_left _ hc).keeps <| hkeeps id' hne
    case neg =>
      have ⟨⟨e, herror⟩, hother⟩ := begin_of_not_fits hidle.stream hfits
      cases hbegin : s.streams.begin b.worker b.requestId b.body
      case mk streams result =>
        rw [hbegin] at herror hother
        dsimp only at herror hother
        subst herror
        refine h.of_keeps_all rfl rfl (fun _ _ hc => hc) (fun _ hc => hc) fun id' => ?_
        exact ⟨hother id', rfl, rfl, rfl, rfl, rfl, fun _ => .inl rfl⟩

-- A frame that is not what concerns the request `id`.
theorem keeps_of_wire {f : RpcResponseStreamFrame} {wire : List RpcResponseStreamFrame}
    (hwire : s.wire = f :: wire) (hid : f.header.requestId ≠ id) : Keeps id s { s with wire } where
  stream       := rfl
  sent         := rfl
  wire         := by simp [wireOf, hwire, hid]
  credits      := rfl
  granted      := rfl
  decoded      := rfl
  assembling _ := .inl rfl

theorem Keeps.of_wire {wire : List RpcResponseStreamFrame} (h : Keeps id s { s with wire })
    (k : Keeps id { s with wire } t) : Keeps id s t :=
  ⟨k.stream, k.sent, k.wire.trans h.wire, k.credits, k.granted, k.decoded, k.assembling⟩

theorem keeps_handle_frame (decodes : Bytes → Bool) (hpend : b.callId ∈ s.pending)
    (hasm : Assoc.get s.assembling b.callId = b.assembled n)
    (hlt : n * rpcStreamChunkBytes < b.body.length)
    (hmax : b.body.length ≤ rpcStreamMaxAccumulatedBytes) (hid : id ≠ b.requestId) :
    Keeps id s (s.handleRpcResponseStream decodes b.worker (b.frameOf n).payload) := by
  have hne (other : BrokerWorkerRef) : (other, id) ≠ b.callId := fun heq => hid <| congrArg Prod.snd heq
  have hid' : b.callId.snd ≠ id := fun heq => hid heq.symm
  rw [handle_frame hpend hasm hlt hmax]
  by_cases hlast : b.body.length ≤ (n + 1) * rpcStreamChunkBytes
  case pos =>
    rw [accept_last hlast]
    have hdec : List.filter (fun d : CallId × Bytes => decide (d.fst.snd = id))
        (s.decoded ++ [(b.callId, b.body)]) = s.decodedOf id := by
      simp [decodedOf, hid']
    dsimp only
    split
    case isTrue  =>
      exact ⟨rfl, rfl, rfl, rfl, rfl, hdec, fun other => .inl <| Assoc.get_delete_of_ne <| hne other⟩
    case isFalse =>
      exact ⟨rfl, rfl, rfl, rfl, rfl, hdec, fun other => .inl <| Assoc.get_delete_of_ne <| hne other⟩
  case neg =>
    rw [accept_more (Nat.not_le.mp hlast)]
    have hcredits : List.filter (fun c : PluginRuntimeStreamCreditBody => decide (c.requestId = id))
        (s.credits ++ [b.creditOf]) = s.creditsOf id := by
      have : b.creditOf.requestId ≠ id := hid'
      simp [creditsOf, this]
    exact ⟨rfl, rfl, rfl, hcredits, rfl, rfl, fun other => .inl <| Assoc.get_set_of_ne <| hne other⟩

-- The chunk that is on its way reaches its worker.
theorem running_handle_frame (decodes : Bytes → Bool) (h : s.Sending b n) (hwire : s.wireOf b.requestId = [])
    (hcredits : s.creditsOf b.requestId = []) (hdecoded : s.decodedOf b.requestId = [])
    (hpend : b.callId ∈ s.pending) (hasm : Assoc.get s.assembling b.callId = b.assembled n) :
    Running (s.handleRpcResponseStream decodes b.worker (b.frameOf n).payload) b n := by
  rw [handle_frame hpend hasm h.cut h.size]
  by_cases hlast : b.body.length ≤ (n + 1) * rpcStreamChunkBytes
  case pos =>
    rw [accept_last hlast]
    have hdec : List.filter (fun d : CallId × Bytes => decide (d.fst.snd = b.requestId))
        (s.decoded ++ [(b.callId, b.body)]) = [(b.callId, b.body)] := by
      rw [List.filter_append]
      change s.decodedOf b.requestId ++ _ = _
      simp [hdecoded, Begun.callId]
    dsimp only
    split
    case isTrue  => exact ⟨⟨h.size, h.cut, h.stream, h.sent, h.granted⟩, .complete hwire hcredits hdec hlast⟩
    case isFalse => exact ⟨⟨h.size, h.cut, h.stream, h.sent, h.granted⟩, .complete hwire hcredits hdec hlast⟩
  case neg =>
    have hmore := Nat.not_le.mp hlast
    rw [accept_more hmore]
    have hcred : List.filter (fun c : PluginRuntimeStreamCreditBody => decide (c.requestId = b.requestId))
        (s.credits ++ [b.creditOf]) = [b.creditOf] := by
      rw [List.filter_append]
      change s.creditsOf b.requestId ++ _ = _
      simp [hcredits, Begun.creditOf]
    have hnext : Assoc.get (Assoc.set s.assembling b.callId (b.assembly n)) b.callId =
        b.assembled (n + 1) := by
      rw [Assoc.get_set_self, assembled_succ hmore]
    exact ⟨⟨h.size, h.cut, h.stream, h.sent, h.granted⟩, .consumed hwire hcred hdecoded hmore fun _ => hnext⟩

-- What is next on its way is the last chunk that its stream has sent.
theorem Sound.of_wire {f : RpcResponseStreamFrame} {wire : List RpcResponseStreamFrame} (h : s.Sound)
    (hwire : s.wire = f :: wire) : ∃ b ∈ s.begun, ∃ n, s.Sending b n ∧ f = b.frameOf n ∧
      { s with wire }.wireOf b.requestId = [] ∧ s.creditsOf b.requestId = [] ∧
      s.decodedOf b.requestId = [] ∧
      (b.callId ∈ s.pending → Assoc.get s.assembling b.callId = b.assembled n) := by
  have ⟨b, hb, hid⟩ := h.begun_of_wire hwire
  have ⟨n, hn⟩ := h.running b hb
  have hcons : s.wireOf b.requestId = f :: { s with wire }.wireOf b.requestId := by
    rw [wireOf, hwire, List.filter_cons, if_pos (by simp [hid])]
    rfl
  cases hn.phase
  case sent hsent hcredits hdecoded hasm =>
    rw [hcons] at hsent
    injection hsent with hf hrest
    exact ⟨b, hb, n, hn.toSending, hf, hrest, hcredits, hdecoded, hasm⟩
  case consumed hnil _ _ _ _ => cases hcons.symm.trans hnil
  case complete hnil _ _ _   => cases hcons.symm.trans hnil
  case dropped hnil _ _ _    => cases hcons.symm.trans hnil

theorem handle_frame_of_gone (decodes : Bytes → Bool) (hgone : b.callId ∉ s.pending) :
    s.handleRpcResponseStream decodes b.worker (b.frameOf n).payload = s := by
  rw [handleRpcResponseStream, RpcResponseStreamFrame.payload, decodePayload_encode]
  exact if_pos hgone

-- A chunk changes nothing but what there is of its response, and the call that it completes.
theorem handle_frame_fields (decodes : Bytes → Bool) (hpend : b.callId ∈ s.pending)
    (hasm : Assoc.get s.assembling b.callId = b.assembled n)
    (hlt : n * rpcStreamChunkBytes < b.body.length)
    (hmax : b.body.length ≤ rpcStreamMaxAccumulatedBytes) :
    let t := s.handleRpcResponseStream decodes b.worker (b.frameOf n).payload
    t.calls = s.calls ∧ t.begun = s.begun ∧ t.workers = s.workers ∧ t.streams = s.streams ∧
      (∀ c ∈ t.pending, c ∈ s.pending) ∧
      ∀ c ∈ s.pending, c ∈ t.pending ∨ c = b.callId ∧ b.body.length ≤ (n + 1) * rpcStreamChunkBytes := by
  rw [handle_frame hpend hasm hlt hmax]
  by_cases hlast : b.body.length ≤ (n + 1) * rpcStreamChunkBytes
  case pos =>
    rw [accept_last hlast]
    dsimp only
    split
    case isTrue =>
      refine ⟨rfl, rfl, rfl, rfl, fun c hc => (List.mem_filter.mp hc).left, fun c hc => ?_⟩
      by_cases heq : c = b.callId
      case pos => exact .inr ⟨heq, hlast⟩
      case neg => exact .inl <| List.mem_filter.mpr ⟨hc, decide_eq_true heq⟩
    case isFalse => exact ⟨rfl, rfl, rfl, rfl, fun _ hc => hc, fun _ hc => .inl hc⟩
  case neg =>
    rw [accept_more (Nat.not_le.mp hlast)]
    exact ⟨rfl, rfl, rfl, rfl, fun _ hc => hc, fun _ hc => .inl hc⟩

theorem sound_deliver (h : s.Sound) : (s.step decodes .deliver).Sound := by
  rw [step]
  cases hwire : s.wire
  case nil => exact h
  case cons f wire =>
    have ⟨b, hb, n, hn, hf, hrest, hcredits, hdecoded, hasm⟩ := h.of_wire hwire
    have hid : f.header.requestId = b.requestId := congrArg (·.header.requestId) hf
    have hworker : f.worker = b.worker := congrArg (·.worker) hf
    have hkeeps (id : String) (hne : id ≠ b.requestId) : Keeps id s { s with wire } :=
      keeps_of_wire hwire fun heq => hne <| heq.symm.trans hid
    have hother (id : String) (hid : ∀ c ∈ s.begun, c.requestId ≠ id) : id ≠ b.requestId :=
      fun heq => hid b hb heq.symm
    have hdropped (hgone : b.callId ∉ s.pending) : Sound { s with wire } := by
      refine h.of_keeps rfl rfl (fun _ _ hc => hc) (fun _ hc => hc)
        (fun id hid => hkeeps id <| hother id hid) fun c hc m hm => ?_
      by_cases heq : c = b
      case pos =>
        subst heq
        exact ⟨n, ⟨hn.size, hn.cut, hn.stream, hn.sent, hn.granted⟩,
          .dropped hrest hcredits hdecoded hgone⟩
      case neg =>
        have hne : c.requestId ≠ b.requestId := fun hid => heq <| h.eq_of_requestId hc hb hid
        exact ⟨m, hm.keeps (hkeeps c.requestId hne) fun hmem => hmem⟩
    dsimp only
    split
    case isFalse hdead =>
      exact hdropped fun hmem => hdead <| hworker ▸ h.alive b.callId hmem
    case isTrue =>
      rw [hf]
      change Sound (handleRpcResponseStream decodes { s with wire } b.worker (b.frameOf n).payload)
      by_cases hpend : b.callId ∈ s.pending
      case neg =>
        rw [handle_frame_of_gone (s := { s with wire }) decodes hpend]
        exact hdropped hpend
      case pos =>
        have hsending : Sending { s with wire } b n := ⟨hn.size, hn.cut, hn.stream, hn.sent, hn.granted⟩
        have hrun := running_handle_frame decodes hsending hrest hcredits hdecoded hpend (hasm hpend)
        have ⟨hcalls, hbegun, hworkers, _, hpending, _⟩ := handle_frame_fields decodes
          (s := { s with wire }) hpend (hasm hpend) hn.cut hn.size
        have hkeep (id : String) (hne : id ≠ b.requestId) : Keeps id s
            (handleRpcResponseStream decodes { s with wire } b.worker (b.frameOf n).payload) := by
          have k := keeps_handle_frame decodes (s := { s with wire }) hpend (hasm hpend) hn.cut hn.size hne
          exact .of_wire (hkeeps id hne) k
        have hlive (c : CallId) (hc : c.fst ∈ s.workers) : c.fst ∈ (handleRpcResponseStream decodes
            { s with wire } b.worker (b.frameOf n).payload).workers := by
          rw [hworkers]
          exact hc
        refine h.of_keeps hcalls hbegun (fun c _ => hlive c) hpending
          (fun id hid => hkeep id <| hother id hid) fun c hc m hm => ?_
        by_cases heq : c = b
        case pos =>
          rw [heq]
          exact ⟨n, hrun⟩
        case neg =>
          have hne : c.requestId ≠ b.requestId := fun hid => heq <| h.eq_of_requestId hc hb hid
          exact ⟨m, hm.keeps (hkeep c.requestId hne) <| hpending c.callId⟩

-- What is next granted pays for the last chunk that its stream has sent.
theorem Sound.of_credits {c : PluginRuntimeStreamCreditBody} {credits : List PluginRuntimeStreamCreditBody}
    (h : s.Sound) (hcons : s.credits = c :: credits) : ∃ b ∈ s.begun, ∃ n, s.Sending b n ∧
      c = b.creditOf ∧ s.wireOf b.requestId = [] ∧ { s with credits }.creditsOf b.requestId = [] ∧
      s.decodedOf b.requestId = [] ∧ (n + 1) * rpcStreamChunkBytes < b.body.length ∧
      (b.callId ∈ s.pending → Assoc.get s.assembling b.callId = b.assembled (n + 1)) := by
  have ⟨b, hb, hid⟩ := h.begun_of_credits hcons
  have ⟨n, hn⟩ := h.running b hb
  have hcons : s.creditsOf b.requestId = c :: { s with credits }.creditsOf b.requestId := by
    rw [creditsOf, hcons, List.filter_cons, if_pos (by simp [hid])]
    rfl
  cases hn.phase
  case consumed hwire hcredits hdecoded hmore hasm =>
    rw [hcons] at hcredits
    injection hcredits with hc hrest
    exact ⟨b, hb, n, hn.toSending, hc, hwire, hrest, hdecoded, hmore, hasm⟩
  case sent _ hnil _ _     => cases hcons.symm.trans hnil
  case complete _ hnil _ _ => cases hcons.symm.trans hnil
  case dropped _ hnil _ _  => cases hcons.symm.trans hnil

-- The state after the credit `c` has been granted to a stream, which sends the chunk `n` then.
def granting (s : System) (b : Begun) (credits : List PluginRuntimeStreamCreditBody) (n : Nat) : System :=
  { s with credits, granted := s.granted ++ [b.creditOf] }.send
    (s.streams.grant b.worker b.requestId rpcStreamChunkBytes).fst (some (b.frameOf n))

theorem step_credit {credits : List PluginRuntimeStreamCreditBody} (hn : s.Sending b n)
    (hmore : (n + 1) * rpcStreamChunkBytes < b.body.length) (hcons : s.credits = b.creditOf :: credits) :
    s.step decodes .credit = s.granting b credits (n + 1) := by
  have hstream := hn.stream
  rw [if_pos hmore] at hstream
  have ⟨hframe, _, _⟩ := grant_spec hstream hmore
  rw [step, hcons]
  dsimp only [Begun.creditOf]
  rw [hframe]
  rfl

theorem keeps_granting {credits : List PluginRuntimeStreamCreditBody} (hn : s.Sending b n)
    (hmore : (n + 1) * rpcStreamChunkBytes < b.body.length) (hcons : s.credits = b.creditOf :: credits)
    (hid : id ≠ b.requestId) : Keeps id s (s.granting b credits (n + 1)) := by
  have hne : b.creditOf.requestId ≠ id := fun heq => hid heq.symm
  have hstream := hn.stream
  rw [if_pos hmore] at hstream
  have ⟨_, _, hother⟩ := grant_spec hstream hmore
  have k : Keeps id { s with credits, granted := s.granted ++ [b.creditOf] }
      (s.granting b credits (n + 1)) :=
    keeps_send (hother id hid) fun f hf => Option.mem_some.mp hf ▸ fun heq => hid heq.symm
  exact {
    stream     := k.stream
    sent       := k.sent
    wire       := k.wire
    credits    := by simp [creditsOf, granting, send, hcons, hne]
    granted    := by simp [grantedOf, granting, send, hne]
    decoded    := k.decoded
    assembling := k.assembling
  }

theorem running_granting {credits : List PluginRuntimeStreamCreditBody} (hn : s.Sending b n)
    (hmore : (n + 1) * rpcStreamChunkBytes < b.body.length) (hwire : s.wireOf b.requestId = [])
    (hcredits : { s with credits }.creditsOf b.requestId = [])
    (hdecoded : s.decodedOf b.requestId = [])
    (hasm : b.callId ∈ s.pending → Assoc.get s.assembling b.callId = b.assembled (n + 1)) :
    Running (s.granting b credits (n + 1)) b (n + 1) := by
  have hstream := hn.stream
  rw [if_pos hmore] at hstream
  have ⟨_, hnext, _⟩ := grant_spec hstream hmore
  have hid : (b.frameOf (n + 1)).header.requestId = b.requestId := rfl
  have hsent : (s.granting b credits (n + 1)).sentOf b.requestId =
      (List.range (n + 2)).map b.frameOf := by
    rw [sentOf, granting, send, Option.toList_some, List.filter_append, List.range_succ, List.map_append]
    change s.sentOf b.requestId ++ _ = _
    rw [hn.sent]
    simp [hid]
  have hwire' : (s.granting b credits (n + 1)).wireOf b.requestId = [b.frameOf (n + 1)] := by
    rw [wireOf, granting, send, Option.toList_some, List.filter_append]
    change s.wireOf b.requestId ++ _ = _
    simp [hwire, hid]
  have hgranted : (s.granting b credits (n + 1)).grantedOf b.requestId =
      List.replicate (n + 1) b.creditOf := by
    rw [grantedOf, granting, send, List.filter_append, List.replicate_succ']
    change s.grantedOf b.requestId ++ _ = _
    rw [hn.granted]
    simp [Begun.creditOf]
  exact {
    size    := hn.size
    cut     := hmore
    stream  := hnext
    sent    := hsent
    granted := hgranted
    phase   := .sent hwire' hcredits hdecoded hasm
  }

theorem sound_credit (h : s.Sound) : (s.step decodes .credit).Sound := by
  cases hcons : s.credits
  case nil => rwa [step, hcons]
  case cons c credits =>
    have ⟨b, hb, n, hn, hc, hwire, hcredits, hdecoded, hmore, hasm⟩ := h.of_credits hcons
    rw [hc] at hcons
    rw [step_credit hn hmore hcons]
    refine h.of_keeps rfl rfl (fun _ _ hc => hc) (fun _ hc => hc) (fun id hid => ?_) fun c hc m hm => ?_
    · exact keeps_granting hn hmore hcons fun heq => hid b hb heq.symm
    · by_cases heq : c = b
      case pos =>
        rw [heq]
        exact ⟨n + 1, running_granting hn hmore hwire hcredits hdecoded hasm⟩
      case neg =>
        have hne : c.requestId ≠ b.requestId := fun hid => heq <| h.eq_of_requestId hc hb hid
        exact ⟨m, hm.keeps (keeps_granting hn hmore hcons hne) fun hmem => hmem⟩

theorem sound_step (e : Event) (h : s.Sound) : (s.step decodes e).Sound := by
  cases e
  case spawn   => exact sound_spawn h
  case exit    => exact sound_exit h
  case call    => exact sound_call h
  case settle  => exact sound_settle h
  case respond => exact sound_respond h
  case deliver => exact sound_deliver h
  case credit  => exact sound_credit h

end Steps

end ResponseStream.System
