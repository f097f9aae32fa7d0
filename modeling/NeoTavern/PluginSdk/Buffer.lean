import NeoTavern.PluginSdk.Inbound
import NeoTavern.PluginSdk.Window

namespace PluginSdk

namespace StreamInbound

variable {V : Type} {limits : StreamLimitsConfig} {i i' : StreamInbound V}

-- The bytes that wait for a call of `pull`, and those that the peer may still send.
def held (i : StreamInbound V) : Nat :=
  bytes i.buffered + i.grantedNotReceived

-- One window that is granted and one buffer that is full.
def Bounded (limits : StreamLimitsConfig) (i : StreamInbound V) : Prop :=
  i.held ≤ limits.maxInFlightBytes + limits.maxBufferedBytesPerStream

instance : Decidable (i.Bounded limits) :=
  Nat.decLe ..

-- The peer sends no more than it was granted.
def Honest (i : StreamInbound V) : InboundEvent V → Prop
  | .chunk _ buffer => buffer.length ≤ i.grantedNotReceived
  | _               => True

instance : Decidable (i.Honest ev) :=
  match ev with
  | .chunk _ _ => Nat.decLe ..
  | .pull | .resume _ | .finish | .error _ => .isTrue trivial

-- A step that grants nothing.
structure Shrinks (i i' : StreamInbound V) : Prop where
  held    : i'.held ≤ i.held
  granted : i'.grantedNotReceived ≤ i.grantedNotReceived

theorem Shrinks.same (hb : i'.buffered = i.buffered)
    (hg : i'.grantedNotReceived = i.grantedNotReceived) : i.Shrinks i' := by
  constructor
  case held    => rw [StreamInbound.held, StreamInbound.held, hb, hg]
  case granted => exact hg.le

theorem shrinks_onChunk (h : buffer.length ≤ i.grantedNotReceived) :
    i.Shrinks (i.onChunk seq buffer) := by
  unfold onChunk
  split
  case isTrue  => exact .same rfl rfl
  case isFalse =>
    dsimp only
    split
    case isTrue =>
      constructor
      case held    => simp [held, failInbound, wake]
      case granted => exact Nat.sub_le ..
    case isFalse =>
      split
      case isTrue =>
        constructor
        case held    => simp [held]
        case granted => exact Nat.sub_le ..
      case isFalse =>
        constructor
        case held    =>
          simp only [held, bytes_append, bytes_singleton]
          omega
        case granted => exact Nat.sub_le ..

theorem shrinks_step {ev : InboundEvent V} (h : i.Honest ev) : i.Shrinks (ev.step i).fst := by
  cases ev
  case pull =>
    simp only [InboundEvent.step, pull]
    split
    case h_1 chunk buffered hb =>
      constructor
      case held    => simp [held, bytes, hb]
      case granted => exact le_rfl
    case h_2 =>
      split
      case isTrue  => exact .same rfl rfl
      case isFalse => split <;> exact .same rfl rfl
  case resume k =>
    simp only [InboundEvent.step, resume]
    split
    case h_1 => split <;> exact .same rfl rfl
    case h_2 => exact .same rfl rfl
  case chunk seq buffer => exact shrinks_onChunk h
  case finish           => exact .same rfl rfl
  case error            => exact .same rfl rfl

theorem Shrinks.bounded (h : i.Shrinks i') (hb : i.Bounded limits) : i'.Bounded limits :=
  h.held.trans hb

-- A stream that has been topped up has a full window.
theorem replenish_spec (h : i.grantedNotReceived ≤ limits.maxInFlightBytes) :
    (i.replenishCredit limits).fst.buffered = i.buffered ∧
      (i.replenishCredit limits).fst.grantedNotReceived = limits.maxInFlightBytes := by
  unfold replenishCredit
  dsimp only
  split
  case isTrue hn  => exact ⟨rfl, by dsimp only; omega⟩
  case isFalse hn => exact ⟨rfl, by dsimp only; omega⟩

theorem replenish_bounded_iff (h : i.grantedNotReceived ≤ limits.maxInFlightBytes) :
    (i.replenishCredit limits).fst.Bounded limits ↔
      bytes i.buffered ≤ limits.maxBufferedBytesPerStream := by
  have ⟨hb, hg⟩ := replenish_spec h
  rw [Bounded, held, hb, hg]
  omega

end StreamInbound

namespace KernelSession

variable {V : Type} [StructuredClone V] {s t : KernelSession V}

section Runs

def Bounded (s : KernelSession V) : Prop :=
  ∀ i ∈ s.inbound, i.Bounded s.limits

instance : Decidable s.Bounded :=
  inferInstanceAs (Decidable (∀ i ∈ _, _))

def Honest (s : KernelSession V) (e : Event V) : Prop :=
  ∀ p ∈ s.inboundStep e, ∀ i ∈ s.inbound[p.fst]?, i.Honest p.snd

instance {e : Event V} : Decidable (s.Honest e) :=
  inferInstanceAs (Decidable (∀ p ∈ _, ∀ i ∈ _, _))

def HonestRun (s : KernelSession V) : List (Event V) → Prop
  | []      => True
  | e :: es => s.Honest e ∧ (s.step e).HonestRun es

instance {es : List (Event V)} : Decidable (s.HonestRun es) :=
  decidable s es
where
  decidable (s : KernelSession V) : (es : List (Event V)) → Decidable (s.HonestRun es)
    | []      => .isTrue trivial
    | e :: es => @instDecidableAnd _ _ _ (decidable (s.step e) es)

-- The stream that a call of `pull` grants more credit for, as the call leaves it.
def toppedUp (s : KernelSession V) (e : Event V) : Option (StreamInbound V) :=
  match s.inboundStep e with
  | some (stream, ev) =>
    match s.inbound[stream]? with
    | some i =>
      if (ev.step i).snd then
        (s.inbound.set stream (ev.step i).fst).find? fun j => j.streamId = i.streamId && j.listed
      else
        none
    | none => none
  | none => none

-- What a call of `pull` leaves in the buffer is no more than a buffer may hold.
def Roomy (s : KernelSession V) (e : Event V) : Prop :=
  ∀ i, s.toppedUp e = some i → bytes i.buffered ≤ s.limits.maxBufferedBytesPerStream

def RoomyRun (s : KernelSession V) : List (Event V) → Prop
  | []      => True
  | e :: es => s.Roomy e ∧ (s.step e).RoomyRun es

end Runs

-- No stream has been granted more than one window.
def OneWindow (s : KernelSession V) : Prop :=
  ∀ i ∈ s.inbound, i.grantedNotReceived ≤ s.limits.maxInFlightBytes

section Steps

omit [StructuredClone V] in
theorem find?_inbound : (s.inbound.find? fun i => i.streamId = streamId && i.listed) =
    (s.inboundOf streamId).bind (s.inbound[·]?) :=
  List.find?_eq_bind_findIdx?_getElem?

omit [StructuredClone V] in
theorem of_shrinks (hb : s.Bounded) (hw : s.OneWindow) (hl : t.limits = s.limits)
    (h : ∀ j ∈ t.inbound, ∃ i ∈ s.inbound, i.Shrinks j) : t.Bounded ∧ t.OneWindow := by
  constructor
  case left =>
    intro j hj
    have ⟨i, hi, hs⟩ := h j hj
    exact hs.bounded <| hl ▸ hb i hi
  case right =>
    intro j hj
    have ⟨i, hi, hs⟩ := h j hj
    exact hs.granted.trans <| hl ▸ hw i hi

-- What a step that tops a stream up does to the bounds.
theorem replenishCredit_bounded (hb : s.Bounded) (hw : s.OneWindow) :
    (s.replenishCredit streamId).OneWindow ∧ ((s.replenishCredit streamId).Bounded ↔
      ∀ i, (s.inbound.find? fun i => i.streamId = streamId && i.listed) = some i →
        bytes i.buffered ≤ s.limits.maxBufferedBytesPerStream) := by
  rw [OneWindow, Bounded, inbound_replenishCredit, find?_inbound, Quiet.replenishCredit.limits]
  cases s.inboundOf streamId
  case none => exact ⟨hw, fun _ => nofun, fun _ => hb⟩
  case some stream =>
    dsimp only [Option.bind_some]
    cases hi : s.inbound[stream]?
    case none =>
      rw [List.modify_eq_self (List.getElem?_eq_none_iff.mp hi)]
      exact ⟨hw, fun _ => nofun, fun _ => hb⟩
    case some i =>
      have hm := List.mem_of_getElem? hi
      have hset : s.inbound.modify stream (fun i => (i.replenishCredit s.limits).fst) =
          s.inbound.set stream (i.replenishCredit s.limits).fst := by
        rw [List.modify_eq_set_getElem?, hi]
        rfl
      have hself : (i.replenishCredit s.limits).fst ∈
          s.inbound.set stream (i.replenishCredit s.limits).fst :=
        List.mem_of_getElem? <| List.getElem?_set_self (List.getElem?_eq_some_iff.mp hi).fst
      rw [hset]
      constructor
      case left =>
        intro j hj
        rcases List.mem_or_eq_of_mem_set hj with hj | rfl
        · exact hw j hj
        · exact (StreamInbound.replenish_spec <| hw i hm).right.le
      case right =>
        have hiff := StreamInbound.replenish_bounded_iff <| hw i hm
        constructor
        case mp =>
          intro h j hj
          cases hj
          exact hiff.mp <| h _ hself
        case mpr =>
          intro h j hj
          rcases List.mem_or_eq_of_mem_set hj with hj | rfl
          · exact hb j hj
          · exact hiff.mpr <| h i rfl

theorem bounded_step {e : Event V} (hb : s.Bounded) (hw : s.OneWindow) (hh : s.Honest e) :
    (s.step e).OneWindow ∧ ((s.step e).Bounded ↔ s.Roomy e) := by
  have ht : s.Intake e (s.step e) := taken
  generalize s.step e = t at *
  have hboth (hr : s.Roomy e) (h : t.Bounded ∧ t.OneWindow) :
      t.OneWindow ∧ (t.Bounded ↔ s.Roomy e) :=
    ⟨h.right, fun _ => hr, fun _ => h.left⟩
  cases ht
  case still he hs =>
    refine hboth ?_ <| of_shrinks hb hw hs.limits fun j hj => ?_
    · intro i hi
      rw [toppedUp] at hi
      split at hi
      case h_1 p hp => simp [he _ hp] at hi
      case h_2      => cases hi
    · exact ⟨j, hs.inbound ▸ hj, .same rfl rfl⟩
  case read stream ev i hi he =>
    have hi' := List.mem_of_getElem? hi
    obtain ⟨hb', hw'⟩ : ({ s with inbound := s.inbound.set stream (ev.step i).fst }).Bounded ∧
        ({ s with inbound := s.inbound.set stream (ev.step i).fst }).OneWindow := by
      refine of_shrinks hb hw rfl fun j hj => ?_
      rcases List.mem_or_eq_of_mem_set hj with hj | rfl
      · exact ⟨j, hj, .same rfl rfl⟩
      · exact ⟨i, hi', StreamInbound.shrinks_step <| hh _ he _ hi⟩
    simp only [intake, Roomy, toppedUp, he, hi]
    cases (ev.step i).snd
    case true  => exact replenishCredit_bounded hb' hw'
    case false => exact ⟨hw', fun _ _ hn => by simp at hn, fun _ => hb'⟩
  case opened i m now hd =>
    refine hboth (by simp [Roomy, toppedUp, inboundStep, hd]) ?_
    have hl : (s.onOpen i).limits = s.limits := Quiet.onOpen.limits
    have hm : ∀ j ∈ (s.onOpen i).inbound, (∃ i ∈ s.inbound, i.Shrinks j) ∨
        j.buffered = [] ∧ j.grantedNotReceived = s.limits.maxInFlightBytes := by
      intro j hj
      rw [inbound_onOpen] at hj
      rcases List.mem_append.mp hj with hj | hj
      · obtain ⟨k, hk, hkj⟩ := List.mem_map.mp hj
        refine .inl ⟨k, hk, ?_⟩
        rw [← hkj]
        split <;> exact .same rfl rfl
      · obtain rfl := List.mem_singleton.mp hj
        exact .inr ⟨rfl, rfl⟩
    constructor
    case left =>
      intro j hj
      rw [hl]
      rcases hm j hj with ⟨k, hk, hs⟩ | ⟨hbuf, hg⟩
      · exact hs.bounded <| hb k hk
      · simp [StreamInbound.Bounded, StreamInbound.held, hbuf, hg, bytes]
    case right =>
      intro j hj
      rw [hl]
      rcases hm j hj with ⟨k, hk, hs⟩ | ⟨_, hg⟩
      · exact hs.granted.trans <| hw k hk
      · exact hg.le
  case disposed hd =>
    refine hboth (by rintro _ ⟨⟩) <| of_shrinks hb hw (dispose_spec hd).limits fun j hj => ?_
    rw [(dispose_spec hd).inbound] at hj
    obtain ⟨i, hi, hij⟩ := List.mem_map.mp hj
    refine ⟨i, hi, ?_⟩
    rw [← hij]
    split <;> exact .same rfl rfl

-- The run lemma.
theorem bounded_run_iff {es : List (Event V)} (hb : s.Bounded) (hw : s.OneWindow)
    (hh : s.HonestRun es) :
    (∀ pre post, es = pre ++ post → (s.run pre).Bounded) ↔ s.RoomyRun es := by
  induction es generalizing s
  case nil =>
    refine ⟨fun _ => trivial, fun _ pre post he => ?_⟩
    rw [(List.append_eq_nil_iff.mp he.symm).left]
    exact hb
  case cons e es ih =>
    have ⟨he, hh⟩ := hh
    have ⟨hw', hiff⟩ := bounded_step hb hw he
    constructor
    case mp =>
      intro h
      have hb' : (s.step e).Bounded := h [e] es rfl
      refine ⟨hiff.mp hb', (ih hb' hw' hh).mp fun pre post hp => ?_⟩
      exact h (e :: pre) post (by rw [hp, List.cons_append])
    case mpr =>
      intro ⟨hr, hrs⟩ pre post hp
      have hb' := hiff.mpr hr
      cases pre
      case nil => exact hb
      case cons e' pre =>
        obtain rfl := (List.cons.inj hp).left
        exact (ih hb' hw' hh).mpr hrs pre post (List.cons.inj hp).right

end Steps

theorem buffer_bounded_iff {role instanceId : String} {limits : StreamLimitsConfig}
    {handlers : List String} {es : List (Event V)}
    (h : (create role instanceId limits handlers : KernelSession V).HonestRun es) :
    (∀ pre post, es = pre ++ post → ((create role instanceId limits handlers).run pre).Bounded) ↔
      (create role instanceId limits handlers : KernelSession V).RoomyRun es :=
  bounded_run_iff nofun nofun h

end KernelSession

namespace Sample

def opened : Event Value :=
  .receive (.streamOpen "host:str:1" <| .data 0) 0

def arrival (seq : Nat) (buffer : Bytes) : Event Value :=
  .receive (.streamChunk "host:str:1" seq buffer) 0

-- The consumer takes one chunk whenever two have come, and each time is granted a full window.
def smallPulls : List (Event Value) := [
  opened,
  arrival 0 [1], arrival 1 [1, 2, 3], .pull 0,
  arrival 2 [1], arrival 3 [1, 2, 3], .pull 0,
  arrival 4 [1], arrival 5 [1, 2, 3], .pull 0,
  arrival 6 [1, 2, 3, 4], .pull 0,
  arrival 7 [1, 2, 3, 4], .pull 0
]

end Sample

namespace KernelSession

open Sample

theorem buffer_bounded_iff_pull :
    (∀ pre post, [opened, arrival 0 chunk, .pull 0] = pre ++ post → (session.run pre).Bounded) ↔
      session.RoomyRun [opened, arrival 0 chunk, .pull 0] :=
  buffer_bounded_iff (by decide +kernel)

theorem buffer_unbounded : ¬∀ (role instanceId : String) (limits : StreamLimitsConfig)
    (handlers : List String) (es : List (Event Value)),
    (create role instanceId limits handlers : KernelSession Value).HonestRun es →
    ((create role instanceId limits handlers).run es).Bounded := by
  intro h
  have hh : session.HonestRun smallPulls := by decide +kernel
  have hb : ¬(session.run smallPulls).Bounded := by decide +kernel
  exact hb <| h _ _ _ _ smallPulls hh

end KernelSession
end PluginSdk
