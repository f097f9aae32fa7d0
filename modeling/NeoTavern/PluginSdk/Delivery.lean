import NeoTavern.PluginSdk.Link

namespace PluginSdk

section Envelopes

variable {V : Type} {streamId : String} {rs cs : List Bytes} {n : Nat} {e : Envelope V}

-- What follows the chunks `rs` in the envelopes of a stream with the chunks `cs`.
theorem next_of_isPrefix {past : Bool} {tail : List (Envelope V)}
    (ht : tail = [] ∨ tail = [.streamEnd streamId])
    (h : chunkEnvelopes streamId rs n ++ (if past then [.streamEnd streamId] else []) ++ [e] <+:
      chunkEnvelopes streamId cs n ++ tail) :
    past = false ∧ ((∃ c, rs ++ [c] <+: cs ∧ e = .streamChunk streamId (n + rs.length) c) ∨
      e = .streamEnd streamId) := by
  induction rs generalizing cs n
  case nil =>
    cases cs
    case nil =>
      rcases ht with rfl | rfl
      · have := h.length_le
        cases past <;> simp [chunkEnvelopes] at this
      · cases past
        case true  =>
          have := h.length_le
          simp [chunkEnvelopes] at this
        case false =>
          obtain ⟨hd, _⟩ := List.cons_prefix_cons.mp h
          exact ⟨rfl, .inr hd⟩
    case cons c cs =>
      cases past
      case true  =>
        obtain ⟨hd, _⟩ := List.cons_prefix_cons.mp h
        cases hd
      case false =>
        obtain ⟨hd, _⟩ := List.cons_prefix_cons.mp h
        exact ⟨rfl, .inl ⟨c, ⟨cs, rfl⟩, hd⟩⟩
  case cons r rs ih =>
    cases cs
    case nil =>
      rcases ht with rfl | rfl
      · have := h.length_le
        simp [chunkEnvelopes] at this
      · obtain ⟨hd, _⟩ := List.cons_prefix_cons.mp h
        cases hd
    case cons c cs =>
      obtain ⟨hd, hr⟩ := List.cons_prefix_cons.mp h
      obtain ⟨ho, hnext⟩ := ih hr
      obtain rfl : r = c := by
        cases hd
        rfl
      refine ⟨ho, hnext.imp (Exists.imp fun d h => ⟨List.cons_prefix_cons.mpr ⟨rfl, h.left⟩, ?_⟩) id⟩
      rw [h.right, List.length_cons]
      congr 1
      omega

theorem chunkEnvelopes_inj {past past' : Bool} {m m' : V}
    (h : Envelope.streamOpen streamId m :: (chunkEnvelopes streamId rs 0 ++
        if past then [.streamEnd streamId] else []) =
      .streamOpen streamId m' :: (chunkEnvelopes streamId cs 0 ++
        if past' then [.streamEnd streamId] else [])) : rs = cs ∧ past = past' := by
  have ht := (List.cons.inj h).right
  have hrs : rs = cs := by
    have hc := congrArg (chunksOf streamId) ht
    have hend (b : Bool) : chunksOf (V := V) streamId (if b then [.streamEnd streamId] else []) = [] := by
      cases b <;> rfl
    rw [chunksOf_append, chunksOf_append, chunksOf_chunkEnvelopes, chunksOf_chunkEnvelopes, hend, hend,
      List.append_nil, List.append_nil] at hc
    have := congrArg (List.map Prod.fst) hc
    simpa using this
  rw [hrs, List.append_cancel_left_eq] at ht
  refine ⟨hrs, ?_⟩
  cases past <;> cases past' <;> simp_all

end Envelopes

namespace Link

variable {V : Type} [StructuredClone V] {l : Link V} {W : List Bytes} {k : Nat}
  {la lb : StreamLimitsConfig}

-- The envelopes of a stream that have come to the second session.
def received (l : Link V) (streamId : String) : List (Envelope V) :=
  ofStream streamId (l.a.port.take l.toB)

-- How much the second session knows of a stream of the first one. Once it knows the stream, the
-- first grant has come to the producer or is on its way.
inductive Heard (l : Link V) (lb : StreamLimitsConfig) (o : StreamOutbound) : Prop
  | nothing (h : l.received o.streamId = []) (hn : ∀ i ∈ l.b.inbound, i.streamId ≠ o.streamId)
  | chunks (m : V) (rs : List Bytes) (past : Bool) (stream : Nat) (i : StreamInbound V)
      (h : l.received o.streamId = .streamOpen o.streamId m :: (chunkEnvelopes o.streamId rs 0 ++
        if past then [.streamEnd o.streamId] else []))
      (hl : l.b.Listens o.streamId lb.maxTotalBytes rs past stream i)
      (hc : o.listed → lb.maxInFlightBytes ≤ o.credit ∨
        .streamCredit o.streamId lb.maxInFlightBytes ∈ l.b.port.drop l.toA)

-- The invariant of the two sessions.
structure Coupled (W : List Bytes) (k : Nat) (la lb : StreamLimitsConfig) (l : Link V) : Prop where
  limits   : l.a.limits = la ∧ l.b.limits = lb
  isOpen   : l.a.disposed = false ∧ l.b.disposed = false
  named    : l.a.Named
  sentB    : l.toB ≤ l.a.port.length
  sentA    : l.toA ≤ l.b.port.length
  known    : ∀ i ∈ l.b.inbound, i.streamId ∈ l.a.streamIds
  flow     : ∀ o, l.a.outbound[k]? = some o →
    (∃ cs, l.a.Feeds W lb.maxInFlightBytes k o cs) ∧ l.Heard lb o

section Steps

open KernelSession StreamOutbound

variable {e : Event V} {n : Nat}

omit [StructuredClone V] in
theorem mem_streamIds_of_posted {s : KernelSession V} {x : Envelope V} (h : s.Named) (hx : x ∈ s.port)
    (hw : x.writes = some i) : i ∈ s.streamIds := by
  by_contra hn
  have hm : x ∈ ofStream i s.port := List.mem_filter.mpr ⟨hx, by simp [hw]⟩
  rw [h.fresh i hn] at hm
  cases hm

omit [StructuredClone V] in
theorem mem_drop_append {x : Envelope V} {p q : List (Envelope V)} (h : x ∈ p.drop n) :
    x ∈ (p ++ q).drop n := by
  rw [List.drop_append]
  exact List.mem_append_left _ h

-- The first session makes a step. It may take an envelope out of its port.
theorem Coupled.stepA (h : l.Coupled W k la lb) (hf : Fits W la lb.maxInFlightBytes)
    (he : e ≠ .dispose) (hn : n ≤ l.b.port.length)
    (hc : ∀ m ∈ e.opens, l.a.outbound.length = k → clones m)
    (hp : ∀ p ∈ l.a.outboundStep e, p.fst = k → ∀ o ∈ l.a.outbound[k]?, o.Plays W p.snd)
    (hg : ∀ o, l.a.outbound[k]? = some o → o.listed →
      .streamCredit o.streamId lb.maxInFlightBytes ∈ l.b.port.drop l.toA →
        lb.maxInFlightBytes ≤ l.a.credited e o.streamId ∨
          .streamCredit o.streamId lb.maxInFlightBytes ∈ l.b.port.drop n) :
    ({ l with a := l.a.step e, toA := n } : Link V).Coupled W k la lb := by
  have ⟨hd, hlim, ⟨out, hport⟩, hids⟩ := step_open h.isOpen.left he
  have hreceived i : ({ l with a := l.a.step e, toA := n } : Link V).received i = l.received i := by
    simp only [received, hport, List.take_append_of_le_length h.sentB]
  constructor
  case limits => exact ⟨hlim.trans h.limits.left, h.limits.right⟩
  case isOpen => exact ⟨hd, h.isOpen.right⟩
  case named  => exact h.named.turn turn
  case sentB  =>
    dsimp only
    rw [hport, List.length_append]
    exact Nat.le_add_right_of_le h.sentB
  case sentA  => exact hn
  case known  => exact fun i hi => hids _ <| h.known i hi
  case flow   =>
    intro o' ho'
    cases ho : l.a.outbound[k]?
    case none =>
      have ⟨hfresh, hfeeds⟩ := feeds_opened W lb.maxInFlightBytes h.named he ho hc ho'
      refine ⟨⟨[], hfeeds⟩, .nothing ?_ fun i hi hid => hfresh <| hid ▸ h.known i hi⟩
      have hs := (List.take_sublist l.toB l.a.port).filter fun x => decide (x.writes = some o'.streamId)
      rw [hreceived]
      exact List.sublist_nil.mp <| h.named.fresh _ hfresh ▸ hs
    case some o =>
      have ⟨⟨cs, hfeeds⟩, hheard⟩ := h.flow o ho
      have ⟨p, ds, hnext, hfollow⟩ := hfeeds.step h.named h.isOpen.left he (h.limits.left ▸ hf)
        fun p hpe hpk => hp p hpe hpk o ho
      obtain rfl : p = o' := Option.some.inj <| hnext.get.symm.trans ho'
      refine ⟨⟨ds, hnext⟩, ?_⟩
      cases hheard
      case nothing hr hno =>
        exact .nothing ((hreceived _).trans <| hfollow.streamId ▸ hr) (hfollow.streamId ▸ hno)
      case chunks m rs past stream i hr hl hcr =>
        refine .chunks m rs past stream i ((hreceived _).trans <| hfollow.streamId ▸ hr)
          (hfollow.streamId ▸ hl) fun hlisted => ?_
        have hlisted := hfollow.listed hlisted
        rw [hfollow.credit, hfollow.streamId]
        rcases hcr hlisted with hcr | hcr
        · exact .inl <| Nat.le_add_right_of_le hcr
        · exact (hg o ho hlisted hcr).imp (fun hx => Nat.le_add_left_of_le hx) id

-- The second session makes a step of its own.
theorem Coupled.eventB (h : l.Coupled W k la lb) (hp : l.Plays W k (.eventB e)) :
    (l.step (.eventB e)).Coupled W k la lb := by
  have ⟨he, hp⟩ := hp
  have hdis : e ≠ .dispose := by
    rintro rfl
    cases he
  have ⟨hd, hlim, ⟨out, hport⟩, _⟩ := step_open h.isOpen.right hdis
  have hin {i} (hi : i ∈ (l.b.step e).inbound) : ∃ j ∈ l.b.inbound, j.streamId = i.streamId := by
    refine (inbound_ids hi).resolve_right ?_
    rintro ⟨m, now, rfl⟩
    cases he
  constructor
  case limits => exact ⟨h.limits.left, hlim.trans h.limits.right⟩
  case isOpen => exact ⟨h.isOpen.left, hd⟩
  case named  => exact h.named
  case sentB  => exact h.sentB
  case sentA  =>
    dsimp only [step]
    rw [hport, List.length_append]
    exact Nat.le_add_right_of_le h.sentA
  case known  =>
    intro i hi
    have ⟨j, hj, hji⟩ := hin hi
    exact hji ▸ h.known j hj
  case flow   =>
    intro o ho
    have ⟨hfeeds, hheard⟩ := h.flow o ho
    refine ⟨hfeeds, ?_⟩
    cases hheard
    case nothing hr hn =>
      refine .nothing hr fun i hi hid => ?_
      have ⟨j, hj, hji⟩ := hin hi
      exact hn j hj <| hji.trans hid
    case chunks m rs past stream i hr hl hc =>
      have ⟨i', hl⟩ := hl.eventB he fun p hpe i hi hid => hp p hpe i hi o ho hid
      refine .chunks m rs past stream i' hr hl fun hlisted => (hc hlisted).imp id fun hc => ?_
      dsimp only [step]
      rw [hport]
      exact mem_drop_append hc

omit [StructuredClone V] in
theorem received_next {x : Envelope V} (hx : l.a.port[l.toB]? = some x) :
    ofStream i (l.a.port.take (l.toB + 1)) =
      l.received i ++ if x.writes = some i then [x] else [] := by
  rw [List.take_add_one, hx, Option.toList_some, ofStream_append, received]
  congr 1
  simp [ofStream, List.filter_cons]

omit [StructuredClone V] in
-- What the second session gets next of a stream.
theorem Coupled.next (h : l.Coupled W k la lb) (ho : l.a.outbound[k]? = some o)
    (hx : l.a.port[l.toB]? = some x) (hw : x.writes = some o.streamId) :
    ∃ (cs : List Bytes) (m : V), cs <+: W ∧ l.received o.streamId ++ [x] <+:
      .streamOpen o.streamId m :: (chunkEnvelopes o.streamId cs 0 ++ o.tail) := by
  have ⟨⟨cs, hfeeds⟩, _⟩ := h.flow o ho
  have ⟨m, hposted⟩ := hfeeds.posted
  refine ⟨cs, m, ?_, ?_⟩
  · exact (List.prefix_append ..).trans <| hfeeds.feeding.queue ▸ hfeeds.feeding.chunks
  · have hp := (List.take_prefix (l.toB + 1) l.a.port).filter fun x => x.writes = some o.streamId
    rw [← ofStream, ← ofStream, received_next hx, if_pos hw, hposted] at hp
    exact hp

omit [StructuredClone V] in
theorem tail_cases {o : StreamOutbound} :
    o.tail (V := V) = [] ∨ o.tail (V := V) = [.streamEnd o.streamId] := by
  rw [StreamOutbound.tail]
  split
  case isTrue  => exact .inr rfl
  case isFalse => exact .inl rfl

theorem Coupled.deliverB (h : l.Coupled W k la lb) (hm : bytes W ≤ lb.maxTotalBytes) :
    (l.step (.deliverB now)).Coupled W k la lb := by
  rw [step]
  split
  case h_2 => exact h
  case h_1 x hx =>
    have hlt := (List.getElem?_eq_some_iff.mp hx).fst
    obtain ⟨hd, hlim, ⟨out, hport⟩, _⟩ := step_open (e := .receive x now) h.isOpen.right (by simp)
    have htake : l.a.port.take (l.toB + 1) = l.a.port.take l.toB ++ [x] := by
      rw [List.take_add_one, hx]
      rfl
    have hin {i} (hi : i ∈ (l.b.step (.receive x now)).inbound) :
        (∃ j ∈ l.b.inbound, j.streamId = i.streamId) ∨ ∃ m, x = .streamOpen i.streamId m := by
      refine (inbound_ids hi).imp id ?_
      rintro ⟨m, _, hx⟩
      cases hx
      exact ⟨m, rfl⟩
    constructor
    case limits => exact ⟨h.limits.left, hlim.trans h.limits.right⟩
    case isOpen => exact ⟨h.isOpen.left, hd⟩
    case named  => exact h.named
    case sentB  => exact hlt
    case sentA  =>
      dsimp only
      rw [hport, List.length_append]
      exact Nat.le_add_right_of_le h.sentA
    case known  =>
      intro i hi
      rcases hin hi with ⟨j, hj, hji⟩ | ⟨m, rfl⟩
      · exact hji ▸ h.known j hj
      · exact mem_streamIds_of_posted h.named (List.mem_of_getElem? hx) rfl
    case flow   =>
      intro o ho
      obtain ⟨hfeeds, hheard⟩ := h.flow o ho
      refine ⟨hfeeds, ?_⟩
      have hsame (hw : x.writes ≠ some o.streamId) :
          ofStream o.streamId (l.a.port.take (l.toB + 1)) = l.received o.streamId := by
        rw [received_next hx, if_neg hw, List.append_nil]
      have hcredit (hc : o.listed → lb.maxInFlightBytes ≤ o.credit ∨
          .streamCredit o.streamId lb.maxInFlightBytes ∈ l.b.port.drop l.toA) :
          o.listed → lb.maxInFlightBytes ≤ o.credit ∨ .streamCredit o.streamId lb.maxInFlightBytes ∈
            (l.b.step (.receive x now)).port.drop l.toA :=
        fun hlisted => (hc hlisted).imp id fun hc => hport ▸ mem_drop_append hc
      cases hheard
      case nothing hr hn =>
        by_cases hw : x.writes = some o.streamId
        case neg =>
          refine .nothing ((hsame hw).trans hr) fun i hi hid => ?_
          rcases hin hi with ⟨j, hj, hji⟩ | ⟨m, rfl⟩
          · exact hn j hj <| hji.trans hid
          · exact hw <| congrArg some hid
        case pos =>
          obtain ⟨cs, m, _, hpre⟩ := h.next ho hx hw
          rw [hr] at hpre
          obtain ⟨hxm, _⟩ := List.cons_prefix_cons.mp hpre
          have ht : l.b.step (.receive x now) = l.b.onOpen o.streamId := by
            rw [hxm, KernelSession.step, onMessage, if_neg (by simp [h.isOpen.right])]
            rfl
          obtain ⟨stream, i, hl⟩ := listens_onOpen hn
          refine .chunks m [] false stream i ?_ (ht ▸ h.limits.right ▸ hl) fun _ => .inr ?_
          · exact (received_next hx).trans (by simp [hr, hxm, Envelope.writes, chunkEnvelopes])
          · dsimp only
            rw [ht, port_onOpen h.isOpen.right, h.limits.right, List.drop_append_of_le_length h.sentA]
            exact List.mem_append_right _ List.mem_cons_self
      case chunks m rs past stream i hr hl hc =>
        by_cases hw : x.writes = some o.streamId
        case neg =>
          obtain ⟨i', hl⟩ : ∃ i', (l.b.step (.receive x now)).Listens o.streamId lb.maxTotalBytes rs
              past stream i' := hl.other hw
          exact .chunks m rs past stream i' ((hsame hw).trans hr) hl (hcredit hc)
        case pos =>
          obtain ⟨cs, m', hcs, hpre⟩ := h.next ho hx hw
          rw [hr, List.cons_append] at hpre
          obtain ⟨_, hpre⟩ := List.cons_prefix_cons.mp hpre
          obtain ⟨hover, hnext⟩ := next_of_isPrefix tail_cases hpre
          subst hover
          have hrx := (received_next (i := o.streamId) hx).trans <| by rw [hr, if_pos hw]
          rcases hnext with ⟨c, hrc, rfl⟩ | rfl
          · have hbytes : bytes (rs ++ [c]) ≤ lb.maxTotalBytes := by
              obtain ⟨rest, hrest⟩ := hrc.trans hcs
              refine le_trans ?_ hm
              rw [← hrest, bytes_append _ rest]
              exact Nat.le_add_right ..
            rw [Nat.zero_add] at *
            obtain ⟨i', hl⟩ : ∃ i', (l.b.step (.receive (.streamChunk o.streamId rs.length c) now)).Listens
                o.streamId lb.maxTotalBytes (rs ++ [c]) false stream i' :=
              hl.chunk h.isOpen.right hbytes
            refine .chunks m (rs ++ [c]) false stream i' (hrx.trans ?_) hl (hcredit hc)
            rw [StreamOutbound.chunkEnvelopes_append]
            simp [chunkEnvelopes]
          · obtain ⟨i', hl⟩ : ∃ i', (l.b.step (.receive (.streamEnd o.streamId) now)).Listens o.streamId
                lb.maxTotalBytes rs true stream i' := hl.finish h.isOpen.right
            refine .chunks m rs true stream i' (hrx.trans ?_) hl (hcredit hc)
            simp

omit [StructuredClone V] in
theorem outboundOf_listed {s : KernelSession V} (h : s.Named) (ho : s.outbound[k]? = some o)
    (hl : o.listed) : s.outboundOf o.streamId = some k := by
  have ⟨hlt, hx⟩ := List.getElem?_eq_some_iff.mp ho
  refine List.findIdx?_eq_some_iff_getElem.mpr ⟨hlt, by simp [hx, hl], fun j hj => ?_⟩
  simp only [Bool.not_eq_true, Bool.and_eq_false_iff, decide_eq_false_iff_not]
  exact .inl <| h.ne_of_ne (List.getElem?_eq_getElem (by omega)) ho (by omega)

theorem Coupled.deliverA (h : l.Coupled W k la lb) (hf : Fits W la lb.maxInFlightBytes) :
    (l.step (.deliverA now)).Coupled W k la lb := by
  rw [step]
  split
  case h_2 => exact h
  case h_1 x hx =>
    obtain ⟨hlt, hxe⟩ := List.getElem?_eq_some_iff.mp hx
    refine h.stepA hf (by simp) hlt (by rintro _ ⟨⟩) ?_ fun o ho hl hc => ?_
    · rintro ⟨j, ev⟩ hp _ o _
      simp only [outboundStep, Option.mem_def] at hp
      split at hp
      case isTrue  => cases hp
      case isFalse =>
        split at hp
        case h_2 => cases hp
        case h_1 =>
          obtain ⟨_, _, he⟩ := Option.map_eq_some_iff.mp hp
          cases he
          trivial
    · rw [List.drop_eq_getElem_cons hlt, List.mem_cons, hxe] at hc
      rcases hc with hc | hc
      · left
        rw [← hc]
        cases hn : lb.maxInFlightBytes
        case zero   => exact Nat.zero_le _
        case succ n =>
          have hof := outboundOf_listed h.named ho hl
          simp [credited, outboundStep, h.isOpen.left, parseEnvelope, hof, ho, OutboundEvent.credited]
      · exact .inr hc

theorem Coupled.step {act : Act V} (h : l.Coupled W k la lb) (hf : Fits W la lb.maxInFlightBytes)
    (hm : bytes W ≤ lb.maxTotalBytes) (hp : l.Plays W k act) : (l.step act).Coupled W k la lb := by
  cases act
  case eventA e =>
    have ⟨he, hc, hp⟩ := hp
    have hdis : e ≠ .dispose := by
      rintro rfl
      cases he
    exact h.stepA hf hdis h.sentA hc hp fun o _ _ hx => .inr hx
  case eventB  => exact h.eventB hp
  case deliverB => exact h.deliverB hm
  case deliverA => exact h.deliverA hf

-- The run lemma.
theorem Coupled.run {acts : List (Act V)} (h : l.Coupled W k la lb)
    (hf : Fits W la lb.maxInFlightBytes) (hm : bytes W ≤ lb.maxTotalBytes)
    (hp : l.PlaysRun W k acts) : (l.run acts).Coupled W k la lb := by
  induction acts generalizing l
  case nil => exact h
  case cons act acts ih =>
    have ⟨hact, hp⟩ := hp
    exact ih (h.step hf hm hact) hp

end Steps

section Main

-- Nothing is in flight, and neither the producer nor the consumer has a step to make.
structure Stuck (W : List Bytes) (l : Link V) (o : StreamOutbound) : Prop where
  arrived  : l.toB = l.a.port.length ∧ l.toA = l.b.port.length
  producer : o.Idle W
  consumer : ∀ i ∈ l.b.inbound, i.streamId = o.streamId → i.Idle

-- No call of `write` waits, the stream has ended, and `collect` has returned all of it.
structure Delivered (W : List Bytes) (l : Link V) (o : StreamOutbound) : Prop where
  settled   : o.Settled
  written   : o.chunks = W
  ended     : o.ended
  collected : ∃ i ∈ l.b.inbound, i.streamId = o.streamId ∧ i.ended ∧ collect i.pulls = some W.flatten

omit [StructuredClone V] in
theorem Coupled.delivered (h : l.Coupled W k la lb) (ho : l.a.outbound[k]? = some o)
    (hs : l.Stuck W o) : l.Delivered W o := by
  have ⟨⟨cs, hfeeds⟩, hheard⟩ := h.flow o ho
  have hfeed := hfeeds.feeding
  have ⟨m, hposted⟩ := hfeeds.posted
  have ⟨_, hended⟩ := hs.producer.right hfeed.settled
  have hall : l.received o.streamId = ofStream o.streamId l.a.port := by
    rw [received, hs.arrived.left, List.take_length]
  have hchunks := hfeed.ended hended
  cases hheard
  case nothing hr _ => cases (hr.symm.trans hall).trans hposted
  case chunks m' rs past stream i hr hl hc =>
    have hqueue : o.queue = [] := by
      cases hlisted : o.listed
      case false => simpa [hended] using hfeed.listed.symm.trans hlisted
      case true  =>
        refine hfeed.flushed <| (hc hlisted).resolve_right ?_
        rw [hs.arrived.right, List.drop_length]
        exact List.not_mem_nil
    have hcs : cs = W := by rw [← hchunks, ← hfeed.queue, hqueue, List.append_nil]
    have ⟨hrs, hover⟩ : rs = cs ∧ past = true := by
      have he := (hr.symm.trans hall).trans hposted
      rw [StreamOutbound.tail, hended, hqueue] at he
      exact chunkEnvelopes_inj he
    subst hover
    have hi := List.mem_of_getElem? hl.get
    constructor
    case settled   => exact hfeed.settled
    case written   => exact hchunks
    case ended     => exact hended
    case collected =>
      refine ⟨i, hi, hl.streamId, hl.ended, ?_⟩
      rw [hl.reading.collected hl.ended (hs.consumer i hi hl.streamId), hrs, hcs]

end Main
end Link

namespace KernelSession

open StreamOutbound

variable {V : Type} [StructuredClone V] {s : KernelSession V}

-- No stream of the session has a call of `write` that waits, if its chunks fit into the buffer.
def Unblocked (s : KernelSession V) : Prop :=
  ∀ o ∈ s.outbound, o.Unblocked ∧ o.maxBufferedBytes = s.limits.maxBufferedBytesPerStream

theorem Unblocked.step {e : Event V} (h : s.Unblocked) : (s.step e).Unblocked := by
  have ht : s.Turn e (s.step e) := turn
  generalize s.step e = t at *
  cases ht
  case quiet _ hq =>
    intro o ho
    rw [hq.limits]
    exact h o (hq.outbound ▸ ho)
  case moved stream ev p p' posted hstep hev hm =>
    intro o ho
    rw [hm.limits]
    rw [hm.outbound] at ho
    rcases List.mem_or_eq_of_mem_set ho with ho | rfl
    · exact h o ho
    · have ⟨hp, hl⟩ := h p <| List.mem_of_getElem? hm.get
      exact ⟨hp.step hstep, hm.own.limit.trans hl⟩
  case opened metaValue ho =>
    intro o hm
    rw [ho.limits]
    rw [ho.outbound] at hm
    rcases List.mem_append.mp hm with hm | hm
    · exact h o hm
    · rw [List.mem_singleton.mp hm]
      exact ⟨fun _ => ⟨nofun, le_rfl⟩, rfl⟩
  case disposed hd =>
    intro o hm
    rw [hd.limits]
    rw [hd.outbound] at hm
    have ⟨p, hp, hpo⟩ := List.mem_map.mp hm
    have ⟨hu, hl⟩ := h p hp
    refine hpo ▸ ⟨hu.dispose, ?_⟩
    rw [StreamOutbound.dispose]
    split <;> exact hl

theorem limits_run {es : List (Event V)} : (s.run es).limits = s.limits := by
  induction es generalizing s
  case nil => rfl
  case cons e es ih =>
    have ht : s.Turn e (s.step e) := turn
    refine Eq.trans (b := (s.step e).limits) ih ?_
    generalize s.step e = t at *
    cases ht
    case quiet _ hq  => exact hq.limits
    case moved hm    => exact hm.limits
    case opened ho   => exact ho.limits
    case disposed hd => exact hd.limits

theorem Unblocked.run {es : List (Event V)} (h : s.Unblocked) : (s.run es).Unblocked := by
  induction es generalizing s
  case nil          => exact h
  case cons e es ih => exact ih h.step

end KernelSession

namespace Link

variable {V : Type} [StructuredClone V] {l : Link V} {W : List Bytes} {k : Nat}
  {la lb : StreamLimitsConfig}

-- Two sessions before anything has happened.
structure Fresh (la lb : StreamLimitsConfig) (l : Link V) : Prop where
  a   : ∃ role instanceId handlers, l.a = KernelSession.create role instanceId la handlers
  b   : ∃ role instanceId handlers, l.b = KernelSession.create role instanceId lb handlers
  toB : l.toB = 0
  toA : l.toA = 0

omit [StructuredClone V] in
theorem Fresh.coupled (h : l.Fresh la lb) : l.Coupled W k la lb := by
  have ⟨roleA, instanceA, handlersA, ha⟩ := h.a
  have ⟨roleB, instanceB, handlersB, hb⟩ := h.b
  constructor
  case limits => simp [ha, hb, KernelSession.create]
  case isOpen => simp [ha, hb, KernelSession.create]
  case named  => exact ha ▸ KernelSession.create_metered.toNamed
  case sentB  => exact h.toB ▸ Nat.zero_le _
  case sentA  => exact h.toA ▸ Nat.zero_le _
  case known  => simp [hb, KernelSession.create]
  case flow   => simp [ha, KernelSession.create]

theorem delivers_everything (hl : l.Fresh la lb)
    (hchunks : ∀ c ∈ W, c.length ≤ la.maxInFlightBytes ∧ c.length ≤ lb.maxInFlightBytes)
    (htotal : bytes W ≤ lb.maxTotalBytes) (hbuffer : bytes W ≤ la.maxBufferedBytesPerStream)
    (hwindow : W ≠ [] → 0 < lb.maxInFlightBytes) :
    (∀ acts o, l.PlaysRun W k acts → (l.run acts).a.outbound[k]? = some o → (l.run acts).Stuck W o →
      (l.run acts).Delivered W o) ∧
    ∀ es, ∀ o ∈ (l.a.run es).outbound, bytes o.chunks ≤ la.maxBufferedBytesPerStream → o.Over := by
  constructor
  case left =>
    intro acts o hp ho hs
    have hf : StreamOutbound.Fits W la lb.maxInFlightBytes := by
      refine ⟨fun c hc => (hchunks c hc).left, fun c hc => ?_, hbuffer⟩
      have hpos := hwindow <| List.ne_nil_of_mem hc
      simp [fits, hpos, (hchunks c hc).right]
    exact (hl.coupled.run hf htotal hp).delivered ho hs
  case right =>
    intro es o ho hb
    obtain ⟨role, instanceId, handlers, ha⟩ := hl.a
    have hu : l.a.Unblocked := by simp [KernelSession.Unblocked, ha, KernelSession.create]
    have hlim : (l.a.run es).limits = la := by
      rw [KernelSession.limits_run, ha]
      rfl
    obtain ⟨hou, hol⟩ := hu.run o ho
    rw [hlim] at hol
    exact (hou <| hol ▸ hb).left

end Link

namespace Sample

-- The two ends of a stream with a window of four bytes and a buffer of eight.
def link : Link Value where
  a := session
  b := .create "host" "p1" { maxInFlightBytes := 4, maxBufferedBytesPerStream := 8, maxTotalBytes := 99 } []

def opening : List (Act Value) :=
  [.eventA openStream, .deliverB 0, .deliverA 0]

-- Three chunks are too much for the buffer, though the consumer has pulled two of them.
def blocked : List (Act Value) := opening ++ [
  .eventA (.write 0 chunk), .eventA (.write 0 chunk), .eventA (.write 0 chunk),
  .deliverB 0, .deliverB 0, .eventB (.pull 0), .eventB (.pull 0), .eventB (.pull 0),
  .deliverA 0, .deliverA 0
]

theorem link_fresh : link.Fresh session.limits session.limits :=
  ⟨⟨_, _, _, rfl⟩, ⟨_, _, _, rfl⟩, rfl, rfl⟩

end Sample

namespace Link

open Sample

theorem delivers_everything_two_chunks :
    (∀ acts o, link.PlaysRun [chunk, chunk] 0 acts → (link.run acts).a.outbound[0]? = some o →
      (link.run acts).Stuck [chunk, chunk] o → (link.run acts).Delivered [chunk, chunk] o) ∧
    ∀ es, ∀ o ∈ (link.a.run es).outbound, bytes o.chunks ≤ 8 → o.Over :=
  delivers_everything link_fresh (by decide) (by decide) (by decide) (by decide)

theorem writer_stays_blocked : ¬∀ (la lb : StreamLimitsConfig) (l : Link Value) (W : List Bytes) (k : Nat)
    (acts : List (Act Value)) (o : StreamOutbound), l.Fresh la lb →
    (∀ c ∈ W, c.length ≤ la.maxInFlightBytes ∧ c.length ≤ lb.maxInFlightBytes) →
    bytes W ≤ lb.maxTotalBytes → l.PlaysRun W k acts → (l.run acts).a.outbound[k]? = some o →
    (l.run acts).Stuck W o → (l.run acts).Delivered W o := by
  intro h
  have ho : (link.run blocked).a.outbound[0]? = some {
    streamId         := "plugin:str:1"
    credit           := 8
    queuedBytes      := 8
    seq              := 2
    maxBufferedBytes := 8
    writes           := [⟨chunk, .done⟩, ⟨chunk, .done⟩, ⟨chunk, .waitingForRoom⟩]
  } := by decide +kernel
  have hd := h _ _ link [chunk, chunk, chunk] 0 blocked _ link_fresh (by decide) (by decide)
    (by decide +kernel) ho ⟨by decide +kernel, by decide +kernel, by decide +kernel⟩
  have := hd.settled
  revert this
  decide +kernel

end Link
end PluginSdk
