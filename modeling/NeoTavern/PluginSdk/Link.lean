import NeoTavern.PluginSdk.Relay

namespace PluginSdk

-- Two sessions and the ports between them, with the number of envelopes that have come out of each.
structure Link (V : Type) where
  a   : KernelSession V
  b   : KernelSession V
  toB : Nat := 0
  toA : Nat := 0

inductive Act (V : Type)
  | eventA (e : Event V)
  | eventB (e : Event V)
  | deliverB (now : Nat)
  | deliverA (now : Nat)

-- Whether an event is a step of the program or the timers around an open session.
def Event.isLocal {V : Type} : Event V → Bool
  | receive _ _ => false
  | dispose     => false
  | _           => true

def Event.opens {V : Type} : Event V → Option V
  | openOutboundStream metaValue => some metaValue
  | _                            => none

namespace Link

variable {V : Type} [StructuredClone V] {l : Link V} {W : List Bytes} {k : Nat}

def step (l : Link V) : Act V → Link V
  | .eventA e    => { l with a := l.a.step e }
  | .eventB e    => { l with b := l.b.step e }
  | .deliverB now =>
    match l.a.port[l.toB]? with
    | some e => { l with b := l.b.step (.receive e now), toB := l.toB + 1 }
    | none   => l
  | .deliverA now =>
    match l.b.port[l.toA]? with
    | some e => { l with a := l.a.step (.receive e now), toA := l.toA + 1 }
    | none   => l

def run (l : Link V) (acts : List (Act V)) : Link V :=
  acts.foldl step l

-- The first session writes the chunks `W` to its stream number `k`, and the second one pulls them.
-- Both are free to do anything else with their calls and with other streams.
def Plays (W : List Bytes) (k : Nat) (l : Link V) : Act V → Prop
  | .eventA e => e.isLocal ∧
    (∀ m ∈ e.opens, l.a.outbound.length = k → clones m) ∧
    ∀ p ∈ l.a.outboundStep e, p.fst = k → ∀ o ∈ l.a.outbound[k]?, o.Plays W p.snd
  | .eventB e => e.isLocal ∧
    ∀ p ∈ l.b.inboundStep e, ∀ i ∈ l.b.inbound[p.fst]?, ∀ o ∈ l.a.outbound[k]?,
      i.streamId = o.streamId → i.Plays p.snd
  | .deliverB _ => True
  | .deliverA _ => True

instance {act : Act V} : Decidable (l.Plays W k act) :=
  match act with
  | .eventA _                => instDecidableAnd
  | .eventB _                => instDecidableAnd
  | .deliverB _ | .deliverA _ => .isTrue trivial

def PlaysRun (W : List Bytes) (k : Nat) (l : Link V) : List (Act V) → Prop
  | []          => True
  | act :: acts => l.Plays W k act ∧ (l.step act).PlaysRun W k acts

instance {acts : List (Act V)} : Decidable (l.PlaysRun W k acts) :=
  decidable l acts
where
  decidable (l : Link V) : (acts : List (Act V)) → Decidable (l.PlaysRun W k acts)
    | []          => .isTrue trivial
    | act :: acts => @instDecidableAnd _ _ _ (decidable (l.step act) acts)

end Link

namespace KernelSession

variable {V : Type} [StructuredClone V] {s t : KernelSession V}

section Intake

variable {f : StreamInbound V → StreamInbound V × Bool}

omit [StructuredClone V] in
theorem replenishCredit_frame (limits : StreamLimitsConfig) {i : StreamInbound V} :
    (i.replenishCredit limits).fst.streamId = i.streamId ∧
      (i.replenishCredit limits).fst.maxTotalBytes = i.maxTotalBytes ∧
        (i.replenishCredit limits).fst.ended = i.ended := by
  unfold StreamInbound.replenishCredit
  dsimp only
  split <;> exact ⟨rfl, rfl, rfl⟩

-- An inbound stream after a step of the stream number `stream`, which may top up any stream.
theorem intake_get (s : KernelSession V) (stream j : Nat) (i : StreamInbound V)
    (f : StreamInbound V → StreamInbound V × Bool) (hi : s.inbound[stream]? = some i) :
    (s.intake stream i f).inbound[j]? =
        (if stream = j then some (f i).fst else s.inbound[j]?) ∨
      (s.intake stream i f).inbound[j]? =
        (if stream = j then some (f i).fst else s.inbound[j]?).map
          fun i => (i.replenishCredit s.limits).fst := by
  have hset : (s.inbound.set stream (f i).fst)[j]? =
      if stream = j then some (f i).fst else s.inbound[j]? := by
    rw [List.getElem?_set]
    split
    case isTrue => rw [if_pos (List.getElem?_eq_some_iff.mp hi).fst]
    case isFalse => rfl
  rw [intake, ← hset]
  split
  case isFalse => exact .inl rfl
  case isTrue =>
    rw [inbound_replenishCredit]
    split
    case h_2 => exact .inl rfl
    case h_1 m _ =>
      rw [List.getElem?_modify]
      split
      case isTrue  => exact .inr rfl
      case isFalse => exact .inl (by simp)

omit [StructuredClone V] in
theorem step_frame (ev : InboundEvent V) {i : StreamInbound V} :
    (ev.step i).fst.streamId = i.streamId ∧ (ev.step i).fst.maxTotalBytes = i.maxTotalBytes := by
  cases ev
  case pull =>
    simp only [InboundEvent.step, StreamInbound.pull]
    split
    · exact ⟨rfl, rfl⟩
    · split
      · exact ⟨rfl, rfl⟩
      · split <;> exact ⟨rfl, rfl⟩
  case resume k =>
    simp only [InboundEvent.step, StreamInbound.resume]
    split
    · split <;> exact ⟨rfl, rfl⟩
    · exact ⟨rfl, rfl⟩
  case chunk seq buffer =>
    simp only [InboundEvent.step, StreamInbound.onChunk]
    split
    · exact ⟨rfl, rfl⟩
    · split
      · exact ⟨rfl, rfl⟩
      · split <;> exact ⟨rfl, rfl⟩
  case finish => exact ⟨rfl, rfl⟩
  case error  => exact ⟨rfl, rfl⟩

end Intake

-- The session reads a stream of which the chunks `rs` have come, and its end if it is `over`.
structure Listens (s : KernelSession V) (id : String) (max : Nat) (rs : List Bytes) (past : Bool)
    (stream : Nat) (i : StreamInbound V) : Prop where
  get      : s.inbound[stream]? = some i
  streamId : i.streamId = id
  limit    : i.maxTotalBytes = max
  ended    : i.ended = past
  reading  : i.Reading rs
  unique   : ∀ (j : Nat) i', s.inbound[j]? = some i' → i'.streamId = id → j = stream

section Listens

variable {id : String} {max : Nat} {rs : List Bytes} {past : Bool} {stream : Nat}
  {i : StreamInbound V}

-- Every inbound stream has kept its place.
def InPlace (s t : KernelSession V) : Prop :=
  ∀ (j : Nat), (t.inbound[j]?).map (·.streamId) = (s.inbound[j]?).map (·.streamId)

omit [StructuredClone V] in
theorem Listens.next {i' : StreamInbound V} (h : s.Listens id max rs past stream i)
    (hp : s.InPlace t) (hi : t.inbound[stream]? = some i') (hl : i'.maxTotalBytes = max)
    (he : i'.ended = past') (hr : i'.Reading rs') : t.Listens id max rs' past' stream i' := by
  constructor
  case get      => exact hi
  case streamId =>
    have := hp stream
    rw [hi, h.get] at this
    exact (Option.some.inj this).trans h.streamId
  case limit    => exact hl
  case ended    => exact he
  case reading  => exact hr
  case unique   =>
    intro j j' hj hid
    have := hp j
    rw [hj] at this
    have ⟨p, hp, hpi⟩ := Option.map_eq_some_iff.mp this.symm
    exact h.unique j p hp <| hpi.trans hid

theorem intake_inPlace (hi : s.inbound[stream]? = some i) {f : StreamInbound V → StreamInbound V × Bool}
    (hf : (f i).fst.streamId = i.streamId) : s.InPlace (s.intake stream i f) := by
  intro j
  have hset : (if stream = j then some (f i).fst else s.inbound[j]?).map (·.streamId) =
      (s.inbound[j]?).map (·.streamId) := by
    split
    case isTrue hj => rw [← hj, hi, Option.map_some, Option.map_some, hf]
    case isFalse   => rfl
  rcases intake_get s stream j i f hi with h | h
  · rw [h, hset]
  · rw [h, Option.map_map, ← hset]
    refine congrArg (Option.map · _) ?_
    funext x
    exact (replenishCredit_frame _).left

-- A step of one inbound stream, which is perhaps the one of interest.
theorem Listens.intake {m : Nat} {j : StreamInbound V} {f : StreamInbound V → StreamInbound V × Bool}
    (h : s.Listens id max rs past stream i) (hj : s.inbound[m]? = some j)
    (hf : (f j).fst.streamId = j.streamId)
    (hown : m = stream → (f j).fst.Reading rs ∧ (f j).fst.ended = past ∧ (f j).fst.maxTotalBytes = max) :
    ∃ i', (s.intake m j f).Listens id max rs past stream i' := by
  have hx : ∃ x, (if m = stream then some (f j).fst else s.inbound[stream]?) = some x ∧
      x.Reading rs ∧ x.ended = past ∧ x.maxTotalBytes = max := by
    split
    case isTrue hm  => exact ⟨_, rfl, hown hm⟩
    case isFalse hm => exact ⟨i, h.get, h.reading, h.ended, h.limit⟩
  obtain ⟨x, hx, hr, he, hl⟩ := hx
  rcases intake_get s m stream j f hj with hg | hg
  · exact ⟨x, h.next (intake_inPlace hj hf) (hg.trans hx) hl he hr⟩
  · rw [hx, Option.map_some] at hg
    have ⟨_, hlim, hend⟩ := replenishCredit_frame s.limits (i := x)
    exact ⟨_, h.next (intake_inPlace hj hf) hg (hlim.trans hl) (hend.trans he) hr.replenishCredit⟩

omit [StructuredClone V] in
theorem ended_pull {ev : InboundEvent V} {j : StreamInbound V}
    (h : ev = .pull ∨ ∃ k, ev = .resume k) : (ev.step j).fst.ended = j.ended := by
  rcases h with rfl | ⟨k, rfl⟩
  · simp only [InboundEvent.step, StreamInbound.pull]
    split
    · rfl
    · split
      · rfl
      · split <;> rfl
  · simp only [InboundEvent.step, StreamInbound.resume]
    split
    · split <;> rfl
    · rfl

omit [StructuredClone V] in
theorem pull_of_local {e : Event V} (he : e.isLocal) (h : s.inboundStep e = some (m, ev)) :
    ev = .pull ∨ ∃ k, ev = .resume k := by
  cases e
  case pull         => cases h; exact .inl rfl
  case resumePull k => cases h; exact .inr ⟨k, rfl⟩
  case receive      => cases he
  all_goals cases h

-- The consumer makes a step of its own.
theorem Listens.eventB {e : Event V} (h : s.Listens id max rs past stream i) (he : e.isLocal)
    (hp : ∀ p ∈ s.inboundStep e, ∀ i ∈ s.inbound[p.fst]?, i.streamId = id → i.Plays p.snd) :
    ∃ i', (s.step e).Listens id max rs past stream i' := by
  have ht : s.Intake e (s.step e) := taken
  generalize s.step e = t at *
  cases ht
  case still he hs =>
    exact ⟨i, by rw [hs.inbound]; exact h.get, h.streamId, h.limit, h.ended, h.reading,
      fun j i' hj => h.unique j i' (hs.inbound ▸ hj)⟩
  case read m ev j hj hev =>
    have hpull := pull_of_local he hev
    refine h.intake hj (step_frame _).left fun hm => ?_
    have hij : i = j := Option.some.inj <| h.get.symm.trans (hm ▸ hj)
    have hplay : j.Plays ev := hp _ hev _ hj (hij ▸ h.streamId)
    exact ⟨(hij ▸ h.reading).step hplay hpull, (ended_pull hpull).trans (hij ▸ h.ended),
      (step_frame _).right.trans (hij ▸ h.limit)⟩
  case opened   => cases he
  case disposed => cases he

omit [StructuredClone V] in
theorem inboundOf_listens (h : s.Listens id max rs false stream i) : s.inboundOf id = some stream := by
  have ⟨hlt, hx⟩ := List.getElem?_eq_some_iff.mp h.get
  have hl : i.listed := by rw [h.reading.listed, h.ended]; rfl
  refine List.findIdx?_eq_some_iff_getElem.mpr ⟨hlt, ?_, fun j hj => ?_⟩
  · simp [hx, h.streamId, hl]
  · simp only [Bool.not_eq_true, Bool.and_eq_false_iff, decide_eq_false_iff_not]
    refine .inl fun hid => ?_
    have := h.unique j _ (List.getElem?_eq_getElem (by omega)) hid
    omega

theorem intake_silent {f : StreamInbound V → StreamInbound V × Bool} (hi : s.inbound[stream]? = some i)
    (hf : (f i).snd = false) : (s.intake stream i f).inbound[stream]? = some (f i).fst := by
  rw [KernelSession.intake, if_neg (by simp [hf])]
  exact List.getElem?_set_self (List.getElem?_eq_some_iff.mp hi).fst

omit [StructuredClone V] in
theorem ended_onChunk : (i.onChunk seq buffer).ended = i.ended := by
  unfold StreamInbound.onChunk
  split
  case isTrue  => rfl
  case isFalse =>
    dsimp only
    split
    · rfl
    · split <;> rfl

omit [StructuredClone V] in
theorem inboundStep_receive {e : Envelope V} (h : s.inboundStep (.receive e now) = some (m, ev))
    (hj : s.inbound[m]? = some j) : e.writes = some j.streamId := by
  have hof {n} (hn : s.inboundOf n = some m) : n = j.streamId := by
    obtain ⟨hlt, hp, _⟩ := List.findIdx?_eq_some_iff_getElem.mp hn
    rw [List.getElem?_eq_getElem hlt] at hj
    cases hj
    simp only [Bool.and_eq_true, decide_eq_true_eq] at hp
    exact hp.left.symm
  simp only [inboundStep] at h
  split at h
  case isTrue  => cases h
  case isFalse =>
    split at h
    case h_4 => cases h
    all_goals
      obtain ⟨n, hn, he⟩ := Option.map_eq_some_iff.mp h
      cases he
      exact congrArg some (hof hn)

theorem Listens.chunk (h : s.Listens id max rs false stream i) (hd : s.disposed = false)
    (hm : bytes (rs ++ [c]) ≤ max) :
    ∃ i', (s.step (.receive (.streamChunk id rs.length c) now)).Listens id max (rs ++ [c]) false stream i' := by
  have he : s.inboundStep (.receive (.streamChunk id rs.length c) now) =
      some (stream, .chunk rs.length c) := by
    simp [inboundStep, hd, inboundOf_listens h]
  rw [step_inbound he h.get]
  have hr : (i.onChunk rs.length c).Reading (rs ++ [c]) :=
    h.reading.onChunk h.ended (h.limit ▸ hm)
  have hf := step_frame (.chunk rs.length c) (i := i)
  exact ⟨_, h.next (intake_inPlace h.get hf.left) (intake_silent h.get rfl) (hf.right.trans h.limit)
    (ended_onChunk.trans h.ended) hr⟩

theorem Listens.finish (h : s.Listens id max rs false stream i) (hd : s.disposed = false) :
    ∃ i', (s.step (.receive (.streamEnd id) now)).Listens id max rs true stream i' := by
  have he : s.inboundStep (.receive (.streamEnd id) now) = some (stream, .finish) := by
    simp [inboundStep, hd, inboundOf_listens h]
  rw [step_inbound he h.get]
  have hf := step_frame .finish (i := i)
  exact ⟨_, h.next (intake_inPlace h.get hf.left) (intake_silent h.get rfl) (hf.right.trans h.limit)
    rfl <| h.reading.onEnd h.ended⟩

-- The session gets an envelope that is not about the stream.
theorem Listens.other {e : Envelope V} (h : s.Listens id max rs past stream i) (hw : e.writes ≠ some id) :
    ∃ i', (s.step (.receive e now)).Listens id max rs past stream i' := by
  have ht : s.Intake (.receive e now) (s.step (.receive e now)) := taken
  generalize s.step (.receive e now) = t at *
  cases ht
  case still he hs =>
    exact ⟨i, by rw [hs.inbound]; exact h.get, h.streamId, h.limit, h.ended, h.reading,
      fun j i' hj => h.unique j i' (hs.inbound ▸ hj)⟩
  case read m ev j hj hev =>
    refine h.intake hj (step_frame _).left fun hm => ?_
    have hij : i = j := Option.some.inj <| h.get.symm.trans (hm ▸ hj)
    refine absurd ?_ hw
    rw [inboundStep_receive hev hj, ← hij, h.streamId]
  case opened n metaValue hd =>
    have hn : n ≠ id := fun hn => hw <| congrArg some hn
    have hin := inbound_onOpen (s := s) n
    refine ⟨i, ?_, h.streamId, h.limit, h.ended, h.reading, fun j i' hj hi' => ?_⟩
    · rw [hin, List.getElem?_append_left (by
        rw [List.length_map]
        exact (List.getElem?_eq_some_iff.mp h.get).fst), List.getElem?_map, h.get]
      have hne : i.streamId ≠ n := fun he => hn <| he.symm.trans h.streamId
      simp [hne]
    · rw [hin, List.getElem?_append] at hj
      split at hj
      case isTrue =>
        rw [List.getElem?_map] at hj
        have ⟨p, hp, hpi⟩ := Option.map_eq_some_iff.mp hj
        refine h.unique j p hp ?_
        rw [← hi', ← hpi]
        split <;> rfl
      case isFalse =>
        have hj := List.mem_of_getElem? hj
        rw [List.mem_singleton.mp hj] at hi'
        exact absurd hi' hn

-- New inbound streams are those that the peer opens.
theorem inbound_ids {e : Event V} (hi : i ∈ (s.step e).inbound) :
    (∃ j ∈ s.inbound, j.streamId = i.streamId) ∨
      ∃ m now, e = .receive (.streamOpen i.streamId m) now := by
  have ht : s.Intake e (s.step e) := taken
  generalize s.step e = t at *
  cases ht
  case still he hs => exact .inl ⟨i, hs.inbound ▸ hi, rfl⟩
  case read m ev j hj hev =>
    have ⟨n, hn⟩ := List.mem_iff_getElem?.mp hi
    have hp := intake_inPlace hj (f := ev.step) (step_frame _).left n
    rw [hn] at hp
    have ⟨p, hp, hpi⟩ := Option.map_eq_some_iff.mp hp.symm
    exact .inl ⟨p, List.mem_of_getElem? hp, hpi⟩
  case opened n metaValue now hd =>
    rw [inbound_onOpen] at hi
    rcases List.mem_append.mp hi with hi | hi
    · have ⟨j, hj, hji⟩ := List.mem_map.mp hi
      refine .inl ⟨j, hj, ?_⟩
      rw [← hji]
      split <;> rfl
    · rw [List.mem_singleton.mp hi]
      exact .inr ⟨metaValue, now, rfl⟩
  case disposed hd =>
    rw [(dispose_spec hd).inbound] at hi
    have ⟨j, hj, hji⟩ := List.mem_map.mp hi
    refine .inl ⟨j, hj, ?_⟩
    rw [← hji]
    split <;> rfl

theorem listens_onOpen (h : ∀ i ∈ s.inbound, i.streamId ≠ id) :
    ∃ stream i, (s.onOpen id).Listens id s.limits.maxTotalBytes [] false stream i := by
  have hin := inbound_onOpen (s := s) id
  have hmap : ∀ (j : Nat) (i' : StreamInbound V), (s.inbound.map fun i : StreamInbound V =>
      if i.streamId = id then { i with listed := false } else i)[j]? = some i' → i'.streamId ≠ id := by
    intro j i' hj
    have ⟨p, hp, hpi⟩ := List.mem_map.mp <| List.mem_of_getElem? hj
    rw [← hpi, if_neg (h p hp)]
    exact h p hp
  refine ⟨s.inbound.length, {
    streamId           := id
    grantedNotReceived := s.limits.maxInFlightBytes
    maxTotalBytes      := s.limits.maxTotalBytes
  }, ?_, rfl, rfl, rfl, ?_, fun j i' hj hi' => ?_⟩
  · rw [hin, List.getElem?_append_right (by simp), List.length_map, Nat.sub_self]
    rfl
  · exact ⟨rfl, rfl, rfl, rfl, .idle [] rfl rfl⟩
  · rw [hin, List.getElem?_append] at hj
    split at hj
    case isTrue  => exact absurd hi' <| hmap j i' hj
    case isFalse hlt =>
      have ⟨hj, _⟩ := List.getElem?_eq_some_iff.mp hj
      simp only [List.length_map, List.length_singleton] at hlt hj
      omega

theorem port_onOpen (hd : s.disposed = false) : (s.onOpen id).port =
    s.port ++ [.streamCredit id s.limits.maxInFlightBytes] := by
  rw [onOpen, send, post]
  dsimp only
  rw [if_neg (by simp [hd])]
  rfl

end Listens

theorem step_open {e : Event V} (hd : s.disposed = false) (he : e ≠ .dispose) :
    (s.step e).disposed = false ∧ (s.step e).limits = s.limits ∧
      (∃ out, (s.step e).port = s.port ++ out) ∧ ∀ i ∈ s.streamIds, i ∈ (s.step e).streamIds := by
  have ht : s.Turn e (s.step e) := turn
  generalize s.step e = t at *
  cases ht
  case quiet _ hq =>
    have ⟨out, hp, _⟩ := hq.port
    refine ⟨hq.disposed.trans hd, hq.limits, ⟨out, hp⟩, fun i hi => ?_⟩
    rwa [streamIds, hq.outbound]
  case moved posted _ _ hm =>
    refine ⟨hm.disposed.trans hd, hm.limits, ⟨posted.filter (·.clones), ?_⟩, fun i hi => ?_⟩
    · rw [hm.port, if_neg (by simp [hd])]
    · rwa [hm.streamIds]
  case opened ho =>
    refine ⟨ho.disposed.right, ho.limits, ⟨_, ho.port⟩, fun i hi => ?_⟩
    rw [ho.streamIds]
    exact List.mem_append_left _ hi
  case disposed => exact absurd rfl he

section Feeds

open StreamOutbound

variable {W : List Bytes} {window k : Nat} {o : StreamOutbound} {cs : List Bytes} {e : Event V}

-- What has been posted of a stream, from its opening on.
def Posted (s : KernelSession V) (o : StreamOutbound) (cs : List Bytes) : Prop :=
  ∃ m, ofStream o.streamId s.port =
    .streamOpen o.streamId m :: (chunkEnvelopes o.streamId cs 0 ++ o.tail)

-- The stream number `k` of a session whose producer writes the chunks `W`.
structure Feeds (s : KernelSession V) (W : List Bytes) (window k : Nat) (o : StreamOutbound)
    (cs : List Bytes) : Prop where
  get     : s.outbound[k]? = some o
  feeding : o.Feeding W s.limits window cs
  posted  : s.Posted o cs

theorem clones_feeds {limits : StreamLimitsConfig} {posted : List (Envelope V)} (h : o.Feeds W limits window cs o' posted new) :
    posted.filter (·.clones) = posted := by
  refine List.filter_eq_self.mpr fun e he => ?_
  have hm : e ∈ chunkEnvelopes o.streamId (cs ++ new) 0 ++ o'.tail :=
    h.posted ▸ List.mem_append_right _ he
  rcases List.mem_append.mp hm with hm | hm
  · have ⟨_, _, hc⟩ := List.mem_map.mp hm
    rw [← hc]
    rfl
  · rw [tail] at hm
    split at hm
    case isTrue  => rw [List.mem_singleton.mp hm]; rfl
    case isFalse => cases hm

-- The stream after a step of its session, and what the step has changed.
structure Follow (s : KernelSession V) (e : Event V) (o o' : StreamOutbound) : Prop where
  streamId : o'.streamId = o.streamId
  credit   : o'.credit = o.credit + s.credited e o.streamId
  listed   : o'.listed → o.listed

theorem Feeds.step (h : s.Feeds W window k o cs) (hn : s.Named) (hd : s.disposed = false)
    (he : e ≠ .dispose) (hf : Fits W s.limits window)
    (hp : ∀ p ∈ s.outboundStep e, p.fst = k → o.Plays W p.snd) :
    ∃ o' cs', (s.step e).Feeds W window k o' cs' ∧ s.Follow e o o' := by
  have ht : s.Turn e (s.step e) := turn
  generalize s.step e = t at *
  obtain ⟨m, hposted⟩ := h.posted
  cases ht
  case quiet hnone hq =>
    have hc : s.credited e o.streamId = 0 := by
      rw [credited]
      split
      case h_1 p hp => simp [hnone _ hp]
      case h_2      => rfl
    refine ⟨o, cs, ⟨hq.outbound ▸ h.get, hq.limits ▸ h.feeding, m, hq.ofStream.trans hposted⟩, rfl, ?_, id⟩
    rw [hc, Nat.add_zero]
  case moved stream ev p p' posted hstep hev hm =>
    have hc : s.credited e o.streamId = if p.streamId = o.streamId then ev.credited else 0 := by
      simp [credited, hev, hm.get]
    by_cases hk : stream = k
    case pos =>
      subst hk
      obtain rfl : o = p := Option.some.inj <| h.get.symm.trans hm.get
      rw [if_pos rfl] at hc
      have hl n (hn : ev = .credit n) : o.listed := (listed_of_credit (hn ▸ hev) hm.get).right
      obtain ⟨new, hnew⟩ := h.feeding.step hf (hp _ hev rfl) hl hstep
      have hkept := step_kept hstep
      refine ⟨p', cs ++ new, ⟨hm.get_self, hm.limits ▸ hnew.feeding, m, ?_⟩, hkept.streamId, ?_, ?_⟩
      · rw [hkept.streamId, hm.ofStream_own, hposted, if_neg (by simp [hd]), clones_feeds hnew,
          List.cons_append, hnew.posted]
      · rw [hc, hkept.credit]
      · intro hl'
        cases hl : o.listed
        case true  => rfl
        case false => simp [hkept.listed hl] at hl'
    case neg =>
      have hne := hn.ne_of_ne hm.get h.get hk
      refine ⟨o, cs, ⟨(hm.get_of_ne hk).trans h.get, hm.limits ▸ h.feeding, m,
        (hm.ofStream_other hne).trans hposted⟩, rfl, ?_, id⟩
      rw [hc, if_neg hne, Nat.add_zero]
  case opened metaValue ho =>
    have hne : s.nextId "str" ≠ o.streamId := fun he => hn.fresh_nextId <| he ▸ mem_streamIds h.get
    refine ⟨o, cs, ⟨?_, ho.limits ▸ h.feeding, m, (ho.ofStream_other hne).trans hposted⟩, rfl, rfl, id⟩
    rw [ho.outbound, List.getElem?_append_left (List.getElem?_eq_some_iff.mp h.get).fst]
    exact h.get
  case disposed => exact absurd rfl he

-- The stream number `k` is opened.
theorem feeds_opened (W : List Bytes) (window : Nat) (hn : s.Named) (he : e ≠ .dispose)
    (hk : s.outbound[k]? = none) (hc : ∀ m ∈ e.opens, s.outbound.length = k → clones m)
    (ho : (s.step e).outbound[k]? = some o) :
    o.streamId ∉ s.streamIds ∧ (s.step e).Feeds W window k o [] := by
  have ht : s.Turn e (s.step e) := turn
  generalize s.step e = t at *
  cases ht
  case quiet hnone hq => cases (hq.outbound ▸ hk).symm.trans ho
  case moved stream ev p p' posted hev hstep hm =>
    have hlen := List.getElem?_eq_none_iff.mp hk
    have ⟨hlt, _⟩ := List.getElem?_eq_some_iff.mp ho
    rw [hm.outbound, List.length_set] at hlt
    omega
  case opened metaValue hopen =>
    have hlen := List.getElem?_eq_none_iff.mp hk
    have ⟨hlt, _⟩ := List.getElem?_eq_some_iff.mp ho
    rw [hopen.outbound, List.length_append, List.length_singleton] at hlt
    have hk : s.outbound.length = k := by omega
    have hget := ho
    rw [hopen.outbound, List.getElem?_append_right hk.le, hk, Nat.sub_self] at hget
    cases hget
    refine ⟨hn.fresh_nextId, ho, ?_, metaValue, ?_⟩
    · exact ⟨by rw [hopen.limits], nofun, List.nil_prefix, rfl, rfl, rfl, rfl, nofun, rfl,
        fun _ => rfl⟩
    · rw [hopen.ofStream_own hn]
      have hcl : clones metaValue = true := hc metaValue rfl hk
      simp [Envelope.clones, hcl, chunkEnvelopes, tail]
  case disposed => exact absurd rfl he

end Feeds
end KernelSession
end PluginSdk
