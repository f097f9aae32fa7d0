import NeoTavern.Lib.Runs
import NeoTavern.Events.Readers

namespace Events

variable {N P : Type} [DecidableEq N]

namespace Host

variable {h : Host N P} {i : Nat} {r r' : Reader N P} {states : EventStates N P} {name : N}
  {p : Phase N} {payload : P} {t t' : Int}

-- What holds of a host at any time, whatever is evicted.
structure Sound (h : Host N P) : Prop where
  store  : h.eventStates.Sound h.emitted
  total  : h.eventStates.total ≤ eventsTotal
  awake  : h.Awake
  reader : ∀ r ∈ h.readers, r.Sound h.eventStates h.emitted

namespace Sound

theorem initial : Sound ({} : Host N P) where
  store  := ⟨List.nodup_nil, fun _ => Window.initial⟩
  total  := Nat.zero_le _
  awake  := Registered.initial
  reader := fun _ hr => nomatch hr

theorem cuts (hs : h.Sound) (hkeys : (states.map (·.fst)).Nodup)
    (hcuts : EventStates.Cuts h.eventStates states) (htotal : states.total ≤ h.eventStates.total) :
    Sound { h with eventStates := states } where
  store  := hs.store.cuts hkeys hcuts
  total  := Nat.le_trans htotal hs.total
  awake  := hs.awake
  reader := fun r hr => (hs.reader r hr).grows hcuts.grows

theorem put (hs : h.Sound) (hi : h.readers[i]? = some r) (hname : r'.name = r.name)
    (hphase : r'.phase.isWaiting = r.phase.isWaiting) (hr : r'.Sound h.eventStates h.emitted) :
    (h.put i r').Sound where
  store  := hs.store
  total  := hs.total
  awake  := Registered.put hs.awake hi hname hphase
  reader := by
    intro x hx
    rcases List.mem_or_eq_of_mem_set hx with hx | hx
    · exact hs.reader x hx
    · exact hx ▸ hr

theorem settle (hs : h.Sound) (hphase : p.isWaiting = false)
    (hnot : ∀ name c seq, p ≠ .failed (.eventCursorExpired name c seq)) :
    (h.settle i p).Sound := by
  have ⟨hstates, hemitted, _⟩ := settle_frame (h := h) (i := i) (p := p)
  refine ⟨by rw [hstates, hemitted]; exact hs.store, by rw [hstates]; exact hs.total,
    hs.awake.settle hphase, fun x hx => ?_⟩
  have ⟨j, hj⟩ := List.mem_iff_getElem?.mp hx
  rw [settle_readers] at hj
  have ⟨r, hr, heq⟩ := Option.map_eq_some_iff.mp hj
  have hr := hs.reader r <| List.mem_of_getElem? hr
  rw [hstates, hemitted, ← heq]
  split
  · exact hr.congr rfl rfl rfl rfl (.inr hnot)
  · exact hr

theorem waitForEvent (hs : h.Sound) (hi : h.readers[i]? = some r') (hname : r.name = r'.name)
    (hready : r'.phase.isWaiting = false) (hr : r.Sound h.eventStates h.emitted) :
    (h.waitForEvent i r).Sound := by
  rw [Host.waitForEvent]
  split
  case isTrue  =>
    exact hs.put hi hname hready.symm <| hr.congr rfl rfl rfl rfl <| .inr <| by simp
  case isFalse =>
    have hwait : Sound
        { h.put i { r with phase := .waiting } with waiters := h.waiters.register r.name i } := by
      have hreg : Registered (h.waiters.register r.name i) (h.readers.set i { r with phase := .waiting }) :=
        Registered.register { r with phase := .waiting } hs.awake hi hready rfl
      refine ⟨hs.store, hs.total, hreg, fun x hx => ?_⟩
      rcases List.mem_or_eq_of_mem_set hx with hx | hx
      · exact hs.reader x hx
      · rw [hx]
        exact hr.congr rfl rfl rfl rfl (.inr <| by simp)
    dsimp only
    split
    · exact hwait.settle rfl (by simp)
    · exact hwait

theorem readReplay (hs : h.Sound) (args : SdkEventsReplayArgs N) :
    Sound { h with eventStates := (h.eventStates.readReplay args).fst } := by
  rw [EventStates.readReplay_fst]
  exact hs.cuts (EventStates.keys_eventState _ hs.store.keys) (EventStates.Cuts.eventState _)
    (Nat.le_of_eq <| EventStates.total_eventState _ hs.store.keys)

theorem sweepExpired (hs : h.Sound) :
    Sound { h with eventStates := h.eventStates.sweepExpired name t } :=
  hs.cuts (EventStates.keys_sweepExpired _ _ hs.store.keys) (EventStates.Cuts.sweepExpired _ _)
    (EventStates.total_sweepExpired _ _ hs.store.keys)

-- An answer makes no new entry and does not wait.
theorem answer (hs : h.Sound) (hi : h.readers[i]? = some r') (hname : r.name = r'.name)
    (hready : r'.phase.isWaiting = false) (hr : r.Sound h.eventStates h.emitted) :
    ({ h with eventStates := (h.eventStates.readReplay r.args).fst }.put i
      (r.settled (h.eventStates.readReplay r.args).snd)).Sound := by
  have hsettled : (r.settled (h.eventStates.readReplay r.args).snd).name = r.name ∧
      (r.settled (h.eventStates.readReplay r.args).snd).phase.isWaiting = false := by
    rw [Reader.settled.eq_def]
    split
    · exact ⟨rfl, rfl⟩
    · exact ⟨rfl, rfl⟩
  refine (hs.readReplay r.args).put hi (hsettled.left.trans hname) (hsettled.right.trans hready.symm) ?_
  refine (hr.settled hs.store).grows <| EventStates.Cuts.grows ?_
  rw [EventStates.readReplay_fst]
  exact EventStates.Cuts.eventState _

theorem replayLoop (hs : h.Sound) (hi : h.readers[i]? = some r') (hname : r.name = r'.name)
    (hready : r'.phase.isWaiting = false) (hr : r.Sound h.eventStates h.emitted) :
    (h.replayLoop i r t t').Sound := by
  have hswept : Sound { h with eventStates := h.eventStates.sweepExpired r.name t } := hs.sweepExpired
  have hr' := hr.grows <| EventStates.Cuts.grows (EventStates.Cuts.sweepExpired r.name t)
  have hanswer := hswept.answer hi hname hready hr'
  rw [Host.replayLoop]
  dsimp only at hanswer ⊢
  split
  case h_1 e he      =>
    rw [he] at hanswer
    exact hanswer
  case h_2 result he =>
    rw [he] at hanswer
    split
    case isTrue  => exact hanswer
    case isFalse =>
      refine (hswept.readReplay r.args).waitForEvent hi hname hready ?_
      refine hr'.grows <| EventStates.Cuts.grows ?_
      rw [EventStates.readReplay_fst]
      exact EventStates.Cuts.eventState _

theorem emit (name : N) (payload : P) (t t' : Int) (hs : h.Sound) : (h.emit name payload t t').Sound ∧
    ((h.emit name payload t t').evictions = h.evictions ++
      (EventStates.evictTotal (h.eventStates.pushed name payload t t').fst.total
        (h.eventStates.pushed name payload t t').fst).snd) ∧
    ∀ j : Nat, (h.emit name payload t t').readers[j]? = h.readers[j]?.map (woken name) := by
  have hpushed := hs.store.pushed name payload t t'
  have hgrows := EventStates.grows_pushed h.eventStates h.emitted name payload t t'
  rw [Host.emit]
  generalize h.eventStates.pushed name payload t t' = pushed at *
  obtain ⟨states, envelope⟩ := pushed
  have ⟨hcuts, hkeys, hevicted⟩ := EventStates.cuts_evictTotal hpushed.keys rfl
  dsimp only at *
  generalize EventStates.evictTotal states.total states = evicted at *
  obtain ⟨states', evictions⟩ := evicted
  dsimp only at *
  have hs' : Sound { h with
      eventStates := states'
      emitted     := h.emitted ++ [envelope]
      evictions   := h.evictions ++ evictions
    } := by
    refine ⟨hpushed.cuts hkeys hcuts, ?_, hs.awake, fun r hr => ?_⟩
    · exact hevicted
    · exact ((hs.reader r hr).grows hgrows).grows hcuts.grows
  have ⟨hawake, hreaders, hstates, hemitted, hevictions⟩ := hs'.awake.resolveWaiters name
  refine ⟨⟨?_, ?_, hawake, fun x hx => ?_⟩, hevictions, hreaders⟩
  · rw [hstates, hemitted]
    exact hs'.store
  · rw [hstates]
    exact hs'.total
  · have ⟨j, hj⟩ := List.mem_iff_getElem?.mp hx
    rw [hreaders] at hj
    have ⟨r, hr, heq⟩ := Option.map_eq_some_iff.mp hj
    have hr := hs'.reader r <| List.mem_of_getElem? hr
    rw [hstates, hemitted, ← heq, woken]
    split
    · exact hr.congr rfl rfl rfl rfl (.inr <| by simp)
    · exact hr

theorem step (hs : h.Sound) (e : Event N P) : (h.step e).Sound := by
  cases e
  case emit name payload t t' => exact (hs.emit name payload t t').left
  case follow name cursor     =>
    refine ⟨hs.store, hs.total, Registered.append hs.awake rfl, fun r hr => ?_⟩
    rcases List.mem_append.mp hr with hr | hr
    · exact hs.reader r hr
    · rw [List.mem_singleton.mp hr]
      refine ⟨?_, fun _ _ _ hphase => nomatch hphase⟩
      cases cursor
      case none _   => exact .inl ⟨rfl, rfl, rfl⟩
      case some c _ => exact .inr ⟨c, rfl, rfl, List.nil_prefix⟩
  case call i limit budgetMs calledAt sweptAt checkedAt =>
    rw [Host.step]
    split
    case h_1      => exact hs
    case h_2 r hi =>
      split
      case isTrue hready =>
        have hnot : r.phase.isWaiting = false := by
          cases hphase : r.phase
          all_goals
            rw [hphase] at hready
            first
              | rfl
              | cases hready
        exact hs.replayLoop hi rfl hnot <|
          (hs.reader r <| List.mem_of_getElem? hi).congr rfl rfl rfl rfl (.inl rfl)
      case isFalse       => exact hs
  case resume i sweptAt checkedAt =>
    rw [Host.step]
    split
    case h_1      => exact hs
    case h_2 r hi =>
      have hr := hs.reader r <| List.mem_of_getElem? hi
      split
      case h_1 hphase => exact hs.replayLoop hi rfl (by rw [hphase]; rfl) hr
      case h_2 hphase => exact hs.answer hi rfl (by rw [hphase]; rfl) hr
      case h_3        => exact hs
  case timeout i => exact hs.settle rfl (by simp)
  case abort i   =>
    rw [Host.step]
    split
    case h_1      => exact hs
    case h_2 r hi =>
      have hr := hs.reader r <| List.mem_of_getElem? hi
      have hput : (h.put i { r with aborted := true }).Sound :=
        hs.put hi rfl rfl <| hr.congr rfl rfl rfl rfl (.inl rfl)
      exact hput.settle rfl (by simp)

end Sound

-- Only an emit evicts for the bound on all names.
theorem step_evictions (e : Event N P) (he : ∀ name payload t t', e ≠ .emit name payload t t') :
    (h.step e).evictions = h.evictions := by
  have hloop (i : Nat) (r : Reader N P) (t t' : Int) : (h.replayLoop i r t t').evictions = h.evictions := by
    rw [replayLoop]
    dsimp only
    split
    case h_1 => rfl
    case h_2 =>
      split
      case isTrue  => rfl
      case isFalse =>
        rw [waitForEvent]
        split
        · rfl
        · dsimp only
          split
          · exact settle_frame.right.right
          · rfl
  cases e
  case emit name payload t t' => exact absurd rfl <| he name payload t t'
  case follow                 => rfl
  case call                   =>
    rw [step]
    split
    · rfl
    · split
      · exact hloop ..
      · rfl
  case resume                 =>
    rw [step]
    split
    · rfl
    · split
      · exact hloop ..
      · rfl
      · rfl
  case timeout                => exact settle_frame.right.right
  case abort                  =>
    rw [step]
    split
    · rfl
    · exact settle_frame.right.right

-- What is promised of the events and of those who wait for them.
structure Exact (h : Host N P) : Prop where
  -- Who follows the cursors gets what has been emitted after the first of them, in order, …
  yields  : ∀ r ∈ h.readers, r.yielded = [] ∨
    ∃ b, r.first = some b ∧ r.cursor = some (b + r.yielded.length) ∧
      r.yielded <+: (history h.emitted r.name).drop b
  -- … each time as much as there is, …
  replays : ∀ name c limit, c ≤ (history h.emitted name).length →
    (∀ e ∈ history h.emitted name, c < e.seq → e ∈ h.eventStates.retained) →
      let page := ((history h.emitted name).drop c).take <| limit.elim eventsMaxReplayLimit (·.val)
      (h.eventStates.readReplay { name, cursor := some c, limit }).snd =
        .ok { events := page, nextCursor := some (c + page.length) }
  -- … and fails if something has been evicted.
  expires : ∀ name c limit, (∃ e ∈ history h.emitted name, c < e.seq ∧ e ∉ h.eventStates.retained) ↔
    ∃ seq, (h.eventStates.readReplay { name, cursor := some c, limit }).snd =
      .error (.eventCursorExpired name c seq)
  failed  : ∀ r ∈ h.readers, ∀ name c seq, r.phase = .failed (.eventCursorExpired name c seq) →
    name = r.name ∧ r.cursor = some c ∧ ∃ e ∈ history h.emitted name, c < e.seq ∧ e ∉ h.eventStates.retained
  oldest  : ∀ v ∈ h.evictions, v.IsOldest
  resumes : ∀ (name : N) (payload : P) (t t' : Int) (i : Nat) (r : Reader N P), h.readers[i]? = some r →
    r.name = name → r.phase = .waiting →
      (h.step (.emit name payload t t')).readers[i]? = some { r with phase := .woken }
  waiting : ∀ name i, i ∈ h.waiters.waitersOf name ↔
    ∃ r, h.readers[i]? = some r ∧ r.name = name ∧ r.phase = .waiting
  counted : h.waiters.count = (h.waiters.byEvent.map (·.snd.length)).sum

omit [DecidableEq N] in
theorem isWaiting_iff {p : Phase N} : p.isWaiting = true ↔ p = .waiting := by
  cases p
  all_goals simp [Phase.isWaiting]

theorem Sound.exact_iff_oldest (hs : h.Sound) : h.Exact ↔ ∀ v ∈ h.evictions, v.IsOldest := by
  refine ⟨Exact.oldest, fun holdest => ?_⟩
  have hexpires (name : N) (c : Nat) : c < (h.eventStates.stateOf name).evictedUpToSeq ↔
      ∃ e ∈ history h.emitted name, c < e.seq ∧ e ∉ h.eventStates.retained := by
    rw [(hs.store.windows name).lt_iff]
    refine exists_congr fun e => and_congr_right fun he => ?_
    rw [EventStates.mem_retained hs.store he]
  constructor
  case yields  =>
    intro r hr
    exact (hs.reader r hr).follows.imp_left fun h => h.right.right
  case replays =>
    intro name c limit hle hall
    have hnot : ¬c < (h.eventStates.stateOf name).evictedUpToSeq := by
      rw [hexpires]
      intro ⟨e, he, hc, hgone⟩
      exact hgone <| hall e he hc
    rw [EventStates.readReplay_some c limit (hs.store.windows name), if_neg hnot,
      if_neg (Nat.not_lt_of_le hle)]
  case expires =>
    intro name c limit
    rw [← hexpires, EventStates.readReplay_some c limit (hs.store.windows name)]
    split
    case isTrue hlt => exact iff_of_true hlt ⟨_, rfl⟩
    case isFalse hnot =>
      refine iff_of_false hnot ?_
      split
      · simp
      · simp
  case failed  =>
    intro r hr name c seq hphase
    have ⟨hname, hcursor, hlt⟩ := (hs.reader r hr).failed name c seq hphase
    exact ⟨hname, hcursor, (hexpires name c).mp <| hname ▸ hlt⟩
  case oldest  => exact holdest
  case resumes =>
    intro name payload t t' i r hr hname hphase
    have ⟨_, _, hreaders⟩ := hs.emit name payload t t'
    rw [Host.step, hreaders, hr, Option.map_some, woken, if_pos ⟨hname, isWaiting_iff.mpr hphase⟩]
  case waiting =>
    intro name i
    rw [hs.awake.mem]
    simp only [isWaiting_iff]
  case counted => exact hs.awake.counted.count

-- An emit that brings the entries of all names above their bound finds the name whose first entry
-- has the smallest number to have the oldest of all entries as well.
def InOrder (h : Host N P) : Event N P → Prop
  | .emit name payload sweptAt emittedAt =>
    let states := (h.eventStates.pushed name payload sweptAt emittedAt).fst
    eventsTotal < states.total → states.Agrees
  | _                                    => True

theorem Sound.step_oldest (hs : h.Sound) (holdest : ∀ v ∈ h.evictions, v.IsOldest) (e : Event N P) :
    (∀ v ∈ (h.step e).evictions, v.IsOldest) ↔ h.InOrder e := by
  cases e
  case emit name payload t t' =>
    have ⟨_, hevictions, _⟩ := hs.emit name payload t t'
    have hkeys := (hs.store.pushed name payload t t').keys
    have htotal := EventStates.total_pushed name payload t t' hs.store.keys
    have hle := Nat.le_trans htotal <| Nat.add_le_add_right hs.total 1
    rw [Host.step, hevictions, List.forall_mem_append]
    exact (and_iff_right holdest).trans <| EventStates.evictTotal_iff hkeys hle
  case follow | call | resume | timeout | abort =>
    rw [step_evictions _ (by simp)]
    exact iff_of_true holdest trivial

-- The promise is kept exactly as long as every eviction finds the numbers in the order of time.
theorem exact_iff (es : List (Event N P)) :
    Runs.Throughout step Exact ({} : Host N P) es ↔ Runs.Meets step InOrder ({} : Host N P) es := by
  have hsound : Runs.Throughout step Sound ({} : Host N P) es :=
    Runs.throughout_of_invariant (fun _ e hs => hs.step e) Sound.initial
  have hiff : Runs.Throughout step (fun h => ∀ v ∈ h.evictions, v.IsOldest) ({} : Host N P) es ↔
      Runs.Meets step InOrder ({} : Host N P) es :=
    Runs.throughout_iff_meets (fun _ e hs => hs.step e) (fun _ e hs holdest => hs.step_oldest holdest e)
      Sound.initial (fun _ hv => nomatch hv)
  rw [← hiff]
  constructor
  case mp  =>
    intro h pre hpre
    exact (hsound pre hpre).exact_iff_oldest.mp <| h pre hpre
  case mpr =>
    intro h pre hpre
    exact (hsound pre hpre).exact_iff_oldest.mpr <| h pre hpre

section Overflow

-- What a name keeps that has been emitted under `k` times at the time 0.
private def ring (n k : Nat) : EventNameState Nat Unit where
  entries := (List.range k).map fun i => { seq := i + 1, name := n, emittedAt := 0, payload := () }
  nextSeq := k + 1

private theorem ring_sweep (n k : Nat) : (ring n k).sweep (0 - eventsTtlMs) = ring n k := by
  have htake : (ring n k).entries.takeWhile (·.emittedAt < 0 - eventsTtlMs) = [] := by
    cases k
    case zero   => rfl
    case succ k => simp [ring, List.range_succ_eq_map, eventsTtlMs]
  rw [EventNameState.sweep, htake]
  rfl

private theorem ring_push (n : Nat) {k : Nat} (hk : k < eventsPerName) :
    ((ring n k).push { seq := k + 1, name := n, emittedAt := 0, payload := () }).trim = ring n (k + 1) := by
  have hpush : (ring n k).push { seq := k + 1, name := n, emittedAt := 0, payload := () } = ring n (k + 1) := by
    simp [ring, EventNameState.push, List.range_succ]
  have hlength : (ring n (k + 1)).entries.length = k + 1 := by simp [ring]
  rw [hpush, EventNameState.trim, hlength, EventNameState.trimFrom, if_neg (Nat.not_lt_of_le hk)]

variable {m : EventStates Nat Unit} {n k : Nat} {h : Host Nat Unit}

private theorem get_last {s : EventNameState Nat Unit} (hm : Assoc.get m n = none) :
    Assoc.get (m ++ [(n, s)]) n = some s := by
  rw [Assoc.get_append, hm, Assoc.get_cons, if_pos rfl, Option.none_or]

private theorem set_last {s t : EventNameState Nat Unit} (hm : Assoc.get m n = none) :
    Assoc.set (m ++ [(n, s)]) n t = m ++ [(n, t)] := by
  rw [Assoc.set, get_last hm, Option.isSome_some, if_pos rfl, List.map_append, List.map_singleton, if_pos rfl]
  congr 1
  refine (List.map_congr_left fun e he => ?_).trans <| List.map_id m
  rw [if_neg <| Assoc.get_eq_none_iff.mp hm e he, id]

private theorem pushed_last (hm : Assoc.get m n = none) (hk : k < eventsPerName) :
    (EventStates.pushed (m ++ [(n, ring n k)]) n () 0 0).fst = m ++ [(n, ring n (k + 1))] := by
  rw [EventStates.pushed, EventStates.eventState, get_last hm]
  dsimp only
  rw [EventStates.sweepExpired, get_last hm]
  dsimp only
  rw [ring_sweep, set_last hm, EventStates.eventState, get_last hm, set_last hm]
  exact congrArg (fun s => m ++ [(n, s)]) <| ring_push n hk

private theorem pushed_first (hm : Assoc.get m n = none) :
    EventStates.pushed m n () 0 0 = EventStates.pushed (m ++ [(n, ring n 0)]) n () 0 0 := by
  have hevent : EventStates.eventState m n = EventStates.eventState (m ++ [(n, ring n 0)]) n := by
    rw [EventStates.eventState, EventStates.eventState, hm, get_last hm, Assoc.set, hm]
    rfl
  rw [EventStates.pushed, EventStates.pushed, hevent]

-- Nobody waits, and nothing has been evicted.
private def At (h : Host Nat Unit) (states : EventStates Nat Unit) : Prop :=
  h.eventStates = states ∧ h.waiters = {} ∧ h.evictions = []

private theorem at_emit (hh : At h m) (htotal : (m.pushed n () 0 0).fst.total ≤ eventsTotal) :
    At (h.emit n () 0 0) (m.pushed n () 0 0).fst := by
  have ⟨hstates, hwaiters, hevictions⟩ := hh
  have hnone : h.waiters.waitersOf n = [] := by rw [hwaiters]; rfl
  rw [emit, hstates]
  dsimp only
  rw [EventStates.evictTotal_of_le htotal, resolveWaiters]
  dsimp only
  rw [hnone, if_neg (by simp)]
  exact ⟨rfl, hwaiters, by simp [hevictions]⟩

private theorem total_last (k : Nat) : EventStates.total (m ++ [(n, ring n k)]) = m.total + k := by
  simp [EventStates.total, ring]

private theorem at_emits (hh : At h m) (hm : Assoc.get m n = none) (hk : k < eventsPerName)
    (htotal : m.total + (k + 1) ≤ eventsTotal) :
    At ((List.replicate (k + 1) (Event.emit n () 0 0)).foldl step h) (m ++ [(n, ring n (k + 1))]) := by
  induction k
  case zero      =>
    have hpushed := pushed_last hm hk
    rw [← pushed_first hm] at hpushed
    have := at_emit (n := n) hh <| by rwa [hpushed, total_last]
    rwa [hpushed] at this
  case succ k ih =>
    have ih := ih (by omega) (by omega)
    have hpushed := pushed_last hm hk
    rw [List.replicate_succ', List.foldl_append]
    have := at_emit (n := n) ih <| by rwa [hpushed, total_last]
    rwa [hpushed] at this

-- The name 0 has been asked for, and there are as many events as there may be of each of `k` others.
private def full (k : Nat) : EventStates Nat Unit :=
  (0, ring 0 0) :: (List.range k).map fun n => (n + 1, ring (n + 1) eventsPerName)

private def fills (k : Nat) : List (Event Nat Unit) :=
  .follow 0 none :: .call 0 none 0 0 0 0 ::
    (List.range k).flatMap fun n => List.replicate eventsPerName (.emit (n + 1) () 0 0)

private theorem total_full (k : Nat) : (full k).total = k * eventsPerName := by
  simp [full, EventStates.total, ring, Function.comp_def]

private theorem at_full (hk : k * eventsPerName ≤ eventsTotal) : At ((fills k).foldl step {}) (full k) := by
  induction k
  case zero      => exact ⟨rfl, rfl, rfl⟩
  case succ k ih =>
    rw [Nat.succ_mul] at hk
    have ih := ih <| by omega
    have hm : Assoc.get (full k) (k + 1) = none := by
      rw [Assoc.get_eq_none_iff]
      intro e he
      rcases List.mem_cons.mp he with he | he
      · simp [he]
      · have ⟨i, hi, heq⟩ := List.mem_map.mp he
        have := List.mem_range.mp hi
        rw [← heq]
        dsimp only
        omega
    have hfull : full (k + 1) = full k ++ [(k + 1, ring (k + 1) eventsPerName)] := by
      simp [full, List.range_succ]
    have hfills : fills (k + 1) = fills k ++ List.replicate (127 + 1) (.emit (k + 1) () 0 0) := by
      simp only [fills, List.range_succ, List.flatMap_append, List.flatMap_singleton, List.cons_append]
      rfl
    rw [hfull, hfills, List.foldl_append]
    exact at_emits ih hm (by decide) <| by rwa [total_full]

private theorem pushed_full (k : Nat) : (EventStates.pushed (full k) 0 () 1 1).fst =
    (0, { entries := [{ seq := 1, name := 0, emittedAt := 1, payload := () }], nextSeq := 2 }) ::
      (full k).tail := by
  have hother : ∀ e ∈ (full k).tail, e.fst ≠ 0 := by
    intro e he
    have ⟨n, _, heq⟩ := List.mem_map.mp he
    simp [← heq]
  have hget (s : EventNameState Nat Unit) : Assoc.get ((0, s) :: (full k).tail) 0 = some s := by
    rw [Assoc.get_cons, if_pos rfl]
  have hset (s t : EventNameState Nat Unit) :
      Assoc.set ((0, s) :: (full k).tail) 0 t = (0, t) :: (full k).tail := by
    rw [Assoc.set, hget, Option.isSome_some, if_pos rfl, List.map_cons, if_pos rfl]
    congr 1
    refine (List.map_congr_left fun e he => ?_).trans <| List.map_id _
    rw [if_neg <| hother e he, id]
  have hfull : full k = (0, ring 0 0) :: (full k).tail := rfl
  rw [hfull, EventStates.pushed, EventStates.eventState, hget]
  dsimp only
  rw [EventStates.sweepExpired, hget]
  dsimp only
  rw [hset, EventStates.eventState, hget]
  dsimp only
  rw [hset]
  rfl

-- The bound on all names takes away what has just been emitted.
theorem newest_evicted : ¬Exact ((fills 32 ++ [Event.emit 0 () 1 1]).foldl step {}) := by
  intro h
  obtain ⟨hstates, _, hevictions⟩ := at_full (k := 32) (by decide)
  have hs : Sound ((fills 32).foldl step {}) :=
    (Runs.throughout_of_invariant (fun _ e hs => hs.step e) Sound.initial).last
  rw [List.foldl_append, List.foldl_cons, List.foldl_nil] at h
  have horder := (hs.step_oldest (by simp [hevictions]) (.emit 0 () 1 1)).mp h.oldest
  rw [InOrder, hstates, pushed_full] at horder
  have htotal : (full 32).tail.map (·.snd.entries.length) = List.replicate 32 eventsPerName := by
    simp [full, ring, Function.comp_def]
  have hagrees := horder <| by
    rw [EventStates.total, List.map_cons, List.sum_cons, htotal, List.sum_replicate_nat]
    decide
  have hle := hagrees 0 { seq := 1, name := 0, emittedAt := 1, payload := () }
    ⟨[], _, _, rfl, rfl, by simp, fun x hx f hf => ?_⟩
    { seq := 1, name := 1, emittedAt := 0, payload := () } ?_
  · exact absurd hle (by decide)
  · obtain ⟨n, _, heq⟩ := List.mem_map.mp hx
    obtain ⟨i, _, heq⟩ := List.mem_map.mp <| List.mem_of_head? <| heq ▸ hf
    rw [← heq]
    exact Nat.le_add_left 1 i
  · refine List.mem_flatMap.mpr ⟨(1, ring 1 eventsPerName), ?_, ?_⟩
    · exact List.mem_cons_of_mem _ <| List.mem_map.mpr ⟨0, by simp, rfl⟩
    · exact List.mem_map.mpr ⟨0, by simp [eventsPerName], rfl⟩

end Overflow

end Host
end Events
