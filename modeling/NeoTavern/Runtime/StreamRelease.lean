import NeoTavern.Lib.Runs
import NeoTavern.Runtime.StreamSlots

namespace ResponseStream.System

open Forwarding (BrokerWorkerRef)

def chunksOf (s : System) (id : String) : List Bytes :=
  (s.sentOf id).map (·.chunk)

-- The chunks of a body arrive whole: numbered from zero, within the credit, the last one alone final.
-- A call that still waits has something on its way or has the body.
structure Whole (s : System) (b : Begun) : Prop where
  seqs    : (s.sentOf b.requestId).map (·.header.seq) = List.range (s.sentOf b.requestId).length
  chunks  : (s.chunksOf b.requestId).flatten <+: b.body
  final   : (s.sentOf b.requestId).map (·.header.final) =
    List.replicate ((s.sentOf b.requestId).length - 1) false ++
      [decide ((s.chunksOf b.requestId).flatten = b.body)]
  credit  : ((s.chunksOf b.requestId).map (·.length)).sum ≤
    rpcStreamInitialCreditBytes + ((s.grantedOf b.requestId).map (·.bytes)).sum
  decoded : s.decodedOf b.requestId = [] ∨ s.decodedOf b.requestId = [(b.callId, b.body)]
  arrives : s.wireOf b.requestId = [] → s.creditsOf b.requestId = [] → b.callId ∈ s.pending →
    (s.chunksOf b.requestId).flatten = b.body ∧ s.decodedOf b.requestId = [(b.callId, b.body)]

-- The response to a call can be streamed, and this has not been done.
structure Answerable (s : System) (b : Begun) : Prop where
  called : b.callId ∈ s.calls
  fresh  : ∀ c ∈ s.begun, c.requestId ≠ b.requestId
  fits   : Fits s.streams b.body

structure Delivers (decodes : Bytes → Bool) (s : System) : Prop where
  whole   : ∀ b ∈ s.begun, s.Whole b
  once    : (s.begun.map (·.requestId)).Nodup
  decoded : ∀ d ∈ s.decoded, ∃ b ∈ s.begun, d = (b.callId, b.body)
  begins  : ∀ b, s.Answerable b →
    (s.step decodes (.respond b.worker b.requestId b.body)).begun = s.begun ++ [b]

-- No stream is kept for a call that nobody waits for.
def Released (s : System) : Prop :=
  ∀ id state, Assoc.get s.streams id = some state →
    state.worker ∈ s.workers ∧ (state.worker, id) ∈ s.pending

-- No call ends while its response is being streamed, and none begins to be streamed after that.
def Clear (s : System) : Event → Prop
  | .exit worker                   =>
    ∀ id state, Assoc.get s.streams id = some state → state.worker ≠ worker
  | .settle worker requestId       =>
    ∀ state, Assoc.get s.streams requestId = some state → state.worker ≠ worker
  | .respond worker requestId body =>
    s.Answerable { worker := worker, requestId, body } → rpcStreamChunkBytes < body.length →
      (worker, requestId) ∈ s.pending
  | .spawn _ | .call _ _ | .deliver | .credit => True

variable {decodes : Bytes → Bool} {s t : System} {b : Begun} {n : Nat} {id : String}

section Delivery

theorem Sending.chunks (h : s.Sending b n) : s.chunksOf b.requestId = b.chunksOf (n + 1) := by
  rw [chunksOf, h.sent, List.map_map]
  rfl

theorem Sending.flatten_eq_iff (h : s.Sending b n) :
    (s.chunksOf b.requestId).flatten = b.body ↔ b.body.length ≤ (n + 1) * rpcStreamChunkBytes := by
  rw [h.chunks, Begun.flatten_chunksOf]
  constructor
  · intro heq
    have := congrArg List.length heq
    rw [List.length_take] at this
    omega
  · exact List.take_of_length_le

theorem Sending.final (h : s.Sending b n) : (s.sentOf b.requestId).map (·.header.final) =
    List.replicate n false ++ [decide (b.body.length ≤ (n + 1) * rpcStreamChunkBytes)] := by
  rw [h.sent, List.map_map, List.range_succ, List.map_append]
  congr 1
  rw [List.eq_replicate_iff]
  refine ⟨by simp, fun final hfinal => ?_⟩
  have ⟨i, hi, heq⟩ := List.mem_map.mp hfinal
  have hle : (i + 1) * rpcStreamChunkBytes ≤ n * rpcStreamChunkBytes :=
    Nat.mul_le_mul_right _ <| List.mem_range.mp hi
  have hcut := h.cut
  rw [← heq]
  exact decide_eq_false <| by omega

theorem Sending.credit (h : s.Sending b n) : ((s.chunksOf b.requestId).map (·.length)).sum ≤
    rpcStreamInitialCreditBytes + ((s.grantedOf b.requestId).map (·.bytes)).sum := by
  have hgranted : ((s.grantedOf b.requestId).map (·.bytes)).sum = n * rpcStreamChunkBytes := by
    rw [h.granted, List.map_replicate, List.sum_replicate_nat]
    rfl
  have hinit : rpcStreamInitialCreditBytes = rpcStreamChunkBytes := rfl
  have hlen := List.length_take_le ((n + 1) * rpcStreamChunkBytes) b.body
  rw [← List.length_flatten, h.chunks, Begun.flatten_chunksOf, hgranted, hinit]
  rw [Nat.succ_mul] at hlen ⊢
  omega

theorem Running.whole (h : s.Running b n) : s.Whole b := by
  have hchunks := h.toSending.flatten_eq_iff
  have hlength : (s.sentOf b.requestId).length = n + 1 := by simp [h.sent]
  constructor
  case seqs =>
    rw [hlength, h.sent, List.map_map]
    exact List.map_id _
  case chunks =>
    rw [h.toSending.chunks, Begun.flatten_chunksOf]
    exact List.take_prefix _ _
  case final =>
    rw [h.toSending.final, hlength, Nat.add_sub_cancel]
    simp only [hchunks]
  case credit => exact h.toSending.credit
  case decoded =>
    cases h.phase
    case sent _ _ hdecoded _       => exact .inl hdecoded
    case consumed _ _ hdecoded _ _ => exact .inl hdecoded
    case complete _ _ hdecoded _   => exact .inr hdecoded
    case dropped _ _ hdecoded _    => exact .inl hdecoded
  case arrives =>
    intro hwire hcredits hpend
    cases h.phase
    case sent hsent _ _ _            => cases hsent.symm.trans hwire
    case consumed _ hgrant _ _ _     => cases hgrant.symm.trans hcredits
    case complete _ _ hdecoded hlast => exact ⟨hchunks.mpr hlast, hdecoded⟩
    case dropped _ _ _ hgone         => exact absurd hpend hgone

theorem Sound.begins (h : s.Sound) (ha : s.Answerable b) :
    s.step decodes (.respond b.worker b.requestId b.body) = { s with begun := s.begun ++ [b] }.send
      (s.streams.begin b.worker b.requestId b.body).fst (some (b.frameOf 0)) := by
  have ⟨hframe, _, _⟩ := begin_of_fits (h.idle b.requestId ha.fresh).stream ha.fits
  have hallows : ¬((b.worker, b.requestId) ∉ s.calls || s.begun.any (·.requestId = b.requestId)) = true := by
    have hcalled : (b.worker, b.requestId) ∈ s.calls := ha.called
    simpa [hcalled] using ha.fresh
  rw [step, if_neg hallows]
  cases hbegin : s.streams.begin b.worker b.requestId b.body
  case mk streams result =>
    rw [hbegin] at hframe
    dsimp only at hframe
    subst hframe
    rfl

theorem Sound.delivers (h : s.Sound) : s.Delivers decodes where
  whole b hb   := by
    have ⟨_, hn⟩ := h.running b hb
    exact hn.whole
  once         := h.once
  decoded d hd := by
    have hmem : d ∈ s.decodedOf d.fst.snd := List.mem_filter.mpr ⟨hd, decide_eq_true rfl⟩
    by_contra hnone
    by_cases hid : ∀ b ∈ s.begun, b.requestId ≠ d.fst.snd
    case pos => simp [(h.idle d.fst.snd hid).decoded] at hmem
    case neg =>
      push Not at hid
      have ⟨b, hb, hid⟩ := hid
      have ⟨n, hn⟩ := h.running b hb
      rw [← hid] at hmem
      cases hn.whole.decoded
      case inl hnil  => simp [hnil] at hmem
      case inr hbody =>
        rw [hbody] at hmem
        exact hnone ⟨b, hb, List.mem_singleton.mp hmem⟩
  begins b hb  := by rw [h.begins hb]; rfl

end Delivery

section Release

theorem released_respond (h : s.Sound) (hr : s.Released) :
    (s.step decodes (.respond b.worker b.requestId b.body)).Released ↔
      (s.Answerable b → rpcStreamChunkBytes < b.body.length → b.callId ∈ s.pending) := by
  by_cases ha : s.Answerable b
  case pos =>
    have hidle := h.idle b.requestId ha.fresh
    obtain ⟨_, hstream, hother⟩ := begin_of_fits hidle.stream ha.fits
    rw [h.begins ha]
    constructor
    · intro hreleased _ hlong
      rw [if_pos hlong] at hstream
      exact (hreleased b.requestId _ hstream).right
    · intro hclear id state hget
      change Assoc.get (s.streams.begin b.worker b.requestId b.body).fst id = some state at hget
      by_cases hid : id = b.requestId
      case neg => exact hr id state <| (hother id hid).symm.trans hget
      case pos =>
        rw [hid, hstream] at hget
        split at hget
        case isFalse      => cases hget
        case isTrue hlong =>
          have hpend := hclear ha hlong
          rw [hid, ← Option.some.inj hget]
          exact ⟨h.alive b.callId hpend, hpend⟩
  case neg =>
    refine iff_of_true ?_ fun h => absurd h ha
    rw [step]
    split
    case isTrue          => exact hr
    case isFalse hallows =>
      simp only [Bool.or_eq_true, decide_eq_true_eq, not_or, List.any_eq_true, not_exists, not_and] at hallows
      have hidle := h.idle b.requestId hallows.right
      have hfits : ¬Fits s.streams b.body := fun hfits => ha ⟨not_not.mp hallows.left, hallows.right, hfits⟩
      obtain ⟨⟨e, herror⟩, hother⟩ := begin_of_not_fits hidle.stream hfits
      cases hbegin : s.streams.begin b.worker b.requestId b.body
      case mk streams result =>
        rw [hbegin] at herror hother
        dsimp only at herror hother
        subst herror
        exact fun id state hget => hr id state <| (hother id).symm.trans hget

theorem released_deliver (h : s.Sound) (hr : s.Released) : (s.step decodes .deliver).Released := by
  rw [step]
  cases hwire : s.wire
  case nil => exact hr
  case cons f wire =>
    obtain ⟨b, hb, n, hn, hf, _, _, _, hasm⟩ := h.of_wire hwire
    dsimp only
    split
    case isFalse => exact hr
    case isTrue  =>
      rw [hf]
      change Released (handleRpcResponseStream decodes { s with wire } b.worker (b.frameOf n).payload)
      by_cases hpend : b.callId ∈ s.pending
      case neg =>
        rw [handle_frame_of_gone (s := { s with wire }) decodes hpend]
        exact hr
      case pos =>
        obtain ⟨_, _, hworkers, hstreams, _, hpending⟩ := handle_frame_fields decodes
          (s := { s with wire }) hpend (hasm hpend) hn.cut hn.size
        intro id state hget
        rw [hstreams] at hget
        obtain ⟨hlive, hmem⟩ := hr id state hget
        rw [hworkers]
        refine ⟨hlive, ?_⟩
        cases hpending (state.worker, id) hmem
        case inl hmem => exact hmem
        case inr hlast =>
          -- The stream is dropped with its last chunk.
          have hid : id = b.requestId := congrArg Prod.snd hlast.left
          have hstream := hn.stream
          rw [if_neg (Nat.not_lt.mpr hlast.right), ← hid] at hstream
          cases hget.symm.trans hstream

theorem released_credit (h : s.Sound) (hr : s.Released) : (s.step decodes .credit).Released := by
  cases hcons : s.credits
  case nil => rwa [step, hcons]
  case cons c credits =>
    obtain ⟨b, hb, n, hn, hc, _, _, _, hmore, _⟩ := h.of_credits hcons
    rw [hc] at hcons
    rw [step_credit hn hmore hcons]
    have hstream := hn.stream
    rw [if_pos hmore] at hstream
    obtain ⟨_, hnext, hother⟩ := grant_spec hstream hmore
    intro id state hget
    change Assoc.get (s.streams.grant b.worker b.requestId rpcStreamChunkBytes).fst id = some state at hget
    by_cases hid : id = b.requestId
    case neg => exact hr id state <| (hother id hid).symm.trans hget
    case pos =>
      rw [hid, hnext] at hget
      split at hget
      case isFalse => cases hget
      case isTrue  =>
        have hheld : b.worker ∈ s.workers ∧ b.callId ∈ s.pending := hr b.requestId _ hstream
        rw [hid, ← Option.some.inj hget]
        exact hheld

theorem released_step (e : Event) (h : s.Sound) (hr : s.Released) :
    (s.step decodes e).Released ↔ s.Clear e := by
  cases e
  case spawn worker =>
    refine iff_of_true ?_ trivial
    rw [step]
    split
    case isTrue  => exact hr
    case isFalse =>
      intro id state hget
      obtain ⟨hlive, hmem⟩ := hr id state hget
      exact ⟨List.mem_append_left _ hlive, hmem⟩
  case exit worker =>
    constructor
    · intro hreleased id state hget
      obtain ⟨hlive, _⟩ := hreleased id state hget
      simpa using (List.mem_filter.mp hlive).right
    · intro hclear id state hget
      obtain ⟨hlive, hmem⟩ := hr id state hget
      have hne := decide_eq_true <| hclear id state hget
      exact ⟨List.mem_filter.mpr ⟨hlive, hne⟩, List.mem_filter.mpr ⟨hmem, hne⟩⟩
  case call worker requestId =>
    refine iff_of_true ?_ trivial
    rw [step]
    split
    case isTrue  => exact hr
    case isFalse =>
      intro id state hget
      obtain ⟨hlive, hmem⟩ := hr id state hget
      exact ⟨hlive, List.mem_append_left _ hmem⟩
  case settle worker requestId =>
    constructor
    · intro hreleased state hget heq
      obtain ⟨_, hmem⟩ := hreleased requestId state hget
      simpa [heq] using (List.mem_filter.mp hmem).right
    · intro hclear id state hget
      obtain ⟨hlive, hmem⟩ := hr id state hget
      refine ⟨hlive, List.mem_filter.mpr ⟨hmem, decide_eq_true fun heq => ?_⟩⟩
      injection heq with hworker hid
      exact hclear state (hid ▸ hget) hworker
  case respond worker requestId body =>
    exact released_respond (b := { worker := worker, requestId, body }) h hr
  case deliver => exact iff_of_true (released_deliver h hr) trivial
  case credit  => exact iff_of_true (released_credit h hr) trivial

end Release

-- However its streams are interleaved, all that is streamed arrives whole. A slot is released
-- unless a call ends in the middle of its stream or is answered after its end.
theorem delivers_and_releases_iff (decodes : Bytes → Bool) (es : List Event) :
    Runs.Throughout (step decodes) (Delivers decodes) {} es ∧
      (Runs.Throughout (step decodes) Released {} es ↔ Runs.Meets (step decodes) Clear {} es) := by
  have hsound : Runs.Throughout (step decodes) Sound {} es :=
    Runs.throughout_of_invariant (fun _ e h => sound_step e h) Sound.init
  refine ⟨hsound.mono fun _ h => h.delivers, ?_⟩
  exact Runs.throughout_iff_meets (fun _ e h => sound_step e h) (fun _ e h hr => released_step e h hr)
    Sound.init fun _ _ h => nomatch h

section Abandoned

private def asked (b : Begun) : System where
  workers := [b.worker]
  spawned := [b.worker]
  calls   := [b.callId]
  pending := [b.callId]

-- A call that ends while the second chunk waits for its credit leaves its stream in the registry.
theorem not_released_of_settled (hlong : rpcStreamChunkBytes < b.body.length)
    (hmax : b.body.length ≤ rpcStreamMaxAccumulatedBytes) : ¬Runs.Throughout (step decodes) Released {} [
      .spawn b.worker, .call b.worker b.requestId, .respond b.worker b.requestId b.body,
      .settle b.worker b.requestId] := by
  intro hreleased
  have hasked : (({} : System).step decodes (.spawn b.worker)).step decodes
      (.call b.worker b.requestId) = asked b := by
    simp [step, asked, Begun.callId]
  have hsound : (asked b).Sound := by
    rw [← hasked]
    exact sound_step _ <| sound_step _ Sound.init
  have ha : (asked b).Answerable b := {
    called := List.mem_singleton_self _
    fresh  := by rintro _ ⟨⟩
    fits   := ⟨Nat.zero_lt_of_lt hlong, hmax, by simp [asked, rpcStreamMaxConcurrent]⟩
  }
  obtain ⟨_, hstream, _⟩ := begin_of_fits (hsound.idle b.requestId ha.fresh).stream ha.fits
  rw [if_pos hlong] at hstream
  have hlast := hreleased.last
  rw [List.foldl_cons, List.foldl_cons, hasked, List.foldl_cons, hsound.begins ha] at hlast
  have hpend := (hlast b.requestId _ hstream).right
  simpa [Begun.stateOf] using (List.mem_filter.mp hpend).right

-- A response of two chunks.
private def longResponse : Begun where
  worker    := { workerId := 1, workerEpoch := 0 }
  requestId := "request"
  body      := List.replicate (rpcStreamChunkBytes + 1) 0

theorem aborted_keeps_slot : ¬Runs.Throughout (step fun _ => true) Released {} [
    .spawn longResponse.worker, .call longResponse.worker longResponse.requestId,
    .respond longResponse.worker longResponse.requestId longResponse.body,
    .settle longResponse.worker longResponse.requestId] := by
  have hlength : longResponse.body.length = rpcStreamChunkBytes + 1 := List.length_replicate
  exact not_released_of_settled (by omega) (by rw [hlength]; decide)

end Abandoned

end ResponseStream.System
