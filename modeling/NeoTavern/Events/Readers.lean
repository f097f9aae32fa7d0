import NeoTavern.Events.Retention
import NeoTavern.Events.Wakeups

namespace Events

variable {N P : Type}

section Answer

variable {h h' : List (EventEntry N P)} {c k : Nat}

-- The number of the last event of a page is where the next page begins.
theorem Numbered.last (hnum : Numbered h) (hc : c ≤ h.length) :
    ((h.drop c).take k).getLast?.elim c (·.seq) = c + ((h.drop c).take k).length := by
  cases hlast : ((h.drop c).take k).getLast?
  case none   =>
    rw [List.getLast?_eq_none_iff.mp hlast]
    rfl
  case some e =>
    rw [List.getLast?_eq_getElem?, List.getElem?_take] at hlast
    split at hlast
    case isTrue  =>
      rw [List.getElem?_drop] at hlast
      have hpos : 0 < ((h.drop c).take k).length := by
        rw [List.length_take, List.length_drop]
        have := (List.getElem?_eq_some_iff.mp hlast).fst
        omega
      rw [Option.elim_some, hnum _ e hlast]
      omega
    case isFalse => cases hlast

end Answer

namespace EventNameState

theorem evicted_shift (s : EventNameState N P) : s.evictedUpToSeq ≤ s.shift.evictedUpToSeq := by
  rw [shift]
  split
  · exact Nat.le_refl _
  · exact Nat.le_max_left ..

theorem evicted_shifts (s : EventNameState N P) (n : Nat) :
    s.evictedUpToSeq ≤ (shift^[n] s).evictedUpToSeq := by
  induction n generalizing s
  case zero      => exact Nat.le_refl _
  case succ n ih => exact Nat.le_trans (evicted_shift s) (ih _)

theorem evicted_trimFrom (s : EventNameState N P) (n : Nat) :
    s.evictedUpToSeq ≤ (trimFrom n s).evictedUpToSeq := by
  induction n generalizing s
  case zero      => exact Nat.le_refl _
  case succ n ih =>
    rw [trimFrom]
    split
    · exact Nat.le_trans (evicted_shift s) (ih _)
    · exact Nat.le_refl _

end EventNameState

namespace EventStates

variable [DecidableEq N] {states states' : EventStates N P} {name : N} {h : List (EventEntry N P)} {c : Nat}
  {args : SdkEventsReplayArgs N} {limit : Option ReplayLimit} {emitted : List (EventEntry N P)}
  {e : EventEntry N P}

theorem readReplay_fst : (states.readReplay args).fst = (states.eventState args.name).fst := by
  rw [readReplay]
  dsimp only
  split
  case h_1 => rfl
  case h_2 =>
    split
    case isTrue  => rfl
    case isFalse =>
      split
      case isTrue  => rfl
      case isFalse =>
        split
        · rfl
        · rfl

theorem readReplay_none (limit : Option ReplayLimit) (hw : Window (stateOf states name) h) :
    ∃ page, page = (h.drop (stateOf states name).evictedUpToSeq).take (limit.elim eventsMaxReplayLimit (·.val)) ∧
      (states.readReplay { name, cursor := none, limit }).snd =
        .ok { events := page, nextCursor := page.getLast?.map (·.seq) } := by
  refine ⟨_, rfl, ?_⟩
  rw [readReplay]
  dsimp only
  rw [eventState_snd, hw.entries]

-- What an answer to a cursor says, in terms of what has been emitted.
theorem readReplay_some (c : Nat) (limit : Option ReplayLimit) (hw : Window (stateOf states name) h) :
    (states.readReplay { name, cursor := some c, limit }).snd =
      if c < (stateOf states name).evictedUpToSeq then
        .error <| .eventCursorExpired name c (stateOf states name).evictedUpToSeq
      else if h.length < c then
        .error <| .validationFailed name c (h.length + 1)
      else
        let page := (h.drop c).take <| limit.elim eventsMaxReplayLimit (·.val)
        .ok { events := page, nextCursor := some <| c + page.length } := by
  rw [readReplay]
  dsimp only
  rw [eventState_snd]
  split
  case isTrue       => rfl
  case isFalse hnot =>
    have hdrop := hw.drop_findIdx (Nat.le_of_not_lt hnot)
    rw [hw.nextSeq]
    split
    case isTrue hahead   => rw [if_pos (Nat.lt_of_succ_le hahead)]
    case isFalse hbehind =>
      have hle : c ≤ h.length := by omega
      rw [if_neg (Nat.not_lt_of_le hle)]
      cases hfind : (stateOf states name).entries.findIdx? (·.seq > c)
      case none   =>
        rw [hfind, Option.elim_none] at hdrop
        simp [← hdrop]
      case some i =>
        rw [hfind, Option.elim_some] at hdrop
        dsimp only
        rw [hdrop, hw.numbered.last hle]

theorem mem_retained (hs : Sound states emitted) (he : e ∈ history emitted name) :
    e ∈ states.retained ↔ e ∈ (stateOf states name).entries := by
  have hname : e.name = name := by simpa using (List.mem_filter.mp he).right
  rw [retained, List.mem_flatMap]
  constructor
  case mp  =>
    intro ⟨x, hx, hmem⟩
    have hstate : stateOf states x.fst = x.snd := by rw [stateOf, Assoc.get_of_mem hs.keys hx, Option.getD_some]
    have hin : e ∈ history emitted x.fst := by
      rw [← hstate, (hs.windows x.fst).entries] at hmem
      exact List.mem_of_mem_drop hmem
    have hfst : e.name = x.fst := by simpa using (List.mem_filter.mp hin).right
    rwa [← hname, hfst, hstate]
  case mpr =>
    intro hmem
    rw [stateOf] at hmem
    cases hget : Assoc.get states name
    case none   =>
      rw [hget] at hmem
      cases hmem
    case some s =>
      rw [hget, Option.getD_some] at hmem
      exact ⟨(name, s), Assoc.mem_of_get hget, hmem⟩

-- The rings have been cut further, or more has been emitted.
structure Grows (states : EventStates N P) (emitted : List (EventEntry N P)) (states' : EventStates N P)
    (emitted' : List (EventEntry N P)) : Prop where
  history : ∀ name, history emitted name <+: Events.history emitted' name
  evicted : ∀ name, (stateOf states name).evictedUpToSeq ≤ (stateOf states' name).evictedUpToSeq

theorem grows_pushed (states : EventStates N P) (emitted : List (EventEntry N P)) (name : N) (payload : P) (t t' : Int) :
    Grows states emitted (states.pushed name payload t t').fst
      (emitted ++ [(states.pushed name payload t t').snd]) := by
  constructor
  case history =>
    intro m
    rw [history_concat]
    split
    · exact List.prefix_append ..
    · exact List.prefix_rfl
  case evicted =>
    intro m
    have hcuts : Cuts states ((states.eventState name).fst.sweepExpired name t) :=
      (Cuts.eventState name).trans <| Cuts.sweepExpired name t
    rw [pushed]
    dsimp only
    rw [stateOf_set, eventState_snd]
    obtain ⟨n, hn⟩ := hcuts m
    have hle := hn ▸ EventNameState.evicted_shifts (stateOf states m) n
    split
    case isTrue heq => exact Nat.le_trans hle <| heq ▸ EventNameState.evicted_trimFrom (EventNameState.push ..) _
    case isFalse    => exact hle

theorem Cuts.grows (h : Cuts states states') : Grows states emitted states' emitted := by
  refine ⟨fun _ => List.prefix_rfl, fun name => ?_⟩
  have ⟨n, hn⟩ := h name
  exact hn ▸ EventNameState.evicted_shifts _ n

end EventStates

section Reader

variable {states states' : EventStates N P} {h h' emitted emitted' : List (EventEntry N P)}
  {r r' : Reader N P}

-- What a reader has got is what has been emitted after its first cursor, with nothing left out.
def Reader.Follows (r : Reader N P) (h : List (EventEntry N P)) : Prop :=
  r.cursor = none ∧ r.first = none ∧ r.yielded = [] ∨
  ∃ b, r.first = some b ∧ r.cursor = some (b + r.yielded.length) ∧ r.yielded <+: h.drop b

theorem Reader.Follows.mono (hf : r.Follows h) (hh : h <+: h') : r.Follows h' := by
  refine hf.imp_right fun ⟨b, hfirst, hcursor, hyield⟩ => ⟨b, hfirst, hcursor, hyield.trans ?_⟩
  have ⟨t, ht⟩ := hh
  rw [← ht, List.drop_append]
  exact List.prefix_append ..

variable [DecidableEq N]

theorem Reader.Follows.settled (hf : r.Follows h) (hw : Window (states.stateOf r.name) h) :
    (r.settled (states.readReplay r.args).snd).Follows h := by
  rcases hf with ⟨hcursor, hfirst, hyield⟩ | ⟨b, hfirst, hcursor, hyield⟩
  · have ⟨page, hpage, hanswer⟩ := EventStates.readReplay_none r.limit hw
    rw [Reader.args, hcursor, hanswer, Reader.settled]
    cases page
    case nil         => exact .inl ⟨rfl, by simp [hfirst], by simp [hyield]⟩
    case cons e page =>
      have hlast := hw.numbered.last (k := r.limit.elim eventsMaxReplayLimit (·.val)) hw.bound
      have hhead : e.seq = (states.stateOf r.name).evictedUpToSeq + 1 := by
        refine hw.numbered _ e ?_
        have hget : (e :: page)[0]? = some e := rfl
        rw [hpage, List.getElem?_take] at hget
        split at hget
        case isTrue  => rwa [List.getElem?_drop] at hget
        case isFalse => cases hget
      rw [← hpage, List.getLast?_cons, Option.elim_some] at hlast
      refine .inr ⟨(states.stateOf r.name).evictedUpToSeq, ?_, ?_, ?_⟩
      · simp [hfirst, hhead]
      · simp only [hyield, List.nil_append, ← hlast, List.getLast?_cons, Option.map_some]
      · dsimp only
        rw [hyield, List.nil_append, hpage]
        exact List.take_prefix ..
  · have hanswer := EventStates.readReplay_some (b + r.yielded.length) r.limit hw
    rw [Reader.args, hcursor, hanswer]
    split
    case isTrue  => exact .inr ⟨b, hfirst, hcursor, hyield⟩
    case isFalse =>
      split
      case isTrue  => exact .inr ⟨b, hfirst, hcursor, hyield⟩
      case isFalse =>
        refine .inr ⟨b, by simp [Reader.settled, hfirst], ?_, ?_⟩
        · rw [Reader.settled, List.length_append, Nat.add_assoc]
        · rw [Reader.settled, ← List.drop_drop]
          dsimp only
          nth_rewrite 1 [List.prefix_iff_eq_take.mp hyield]
          rw [← List.take_add]
          exact List.take_prefix ..

-- A call that has failed for its cursor has failed because an event after it is gone.
def Reader.Failed (r : Reader N P) (s : EventNameState N P) : Prop :=
  ∀ name c seq, r.phase = .failed (.eventCursorExpired name c seq) →
    name = r.name ∧ r.cursor = some c ∧ c < s.evictedUpToSeq

theorem Reader.failed_settled (hw : Window (states.stateOf r.name) h) :
    (r.settled (states.readReplay r.args).snd).Failed (states.stateOf r.name) := by
  intro name c seq hphase
  rw [Reader.args] at hphase ⊢
  cases hcursor : r.cursor
  case none   =>
    have ⟨page, _, hanswer⟩ := EventStates.readReplay_none r.limit hw
    rw [hcursor, hanswer] at hphase
    cases hphase
  case some b =>
    have hanswer := EventStates.readReplay_some b r.limit hw
    rw [hcursor, hanswer] at hphase
    rw [hanswer]
    split at hphase
    case isTrue hlt   =>
      rw [if_pos hlt]
      injection hphase with hphase
      injection hphase with hname hc _
      exact ⟨hname.symm, hc ▸ hcursor, hc ▸ hlt⟩
    case isFalse hnot =>
      split at hphase
      · cases hphase
      · cases hphase

-- What holds of a reader in a host.
structure Reader.Sound (r : Reader N P) (states : EventStates N P) (emitted : List (EventEntry N P)) :
    Prop where
  follows : r.Follows (history emitted r.name)
  failed  : r.Failed (states.stateOf r.name)

theorem Reader.Sound.grows (hr : r.Sound states emitted)
    (hg : EventStates.Grows states emitted states' emitted') : r.Sound states' emitted' := by
  refine ⟨hr.follows.mono <| hg.history _, fun name c seq hphase => ?_⟩
  have ⟨hname, hcursor, hlt⟩ := hr.failed name c seq hphase
  exact ⟨hname, hcursor, Nat.lt_of_lt_of_le hlt <| hg.evicted _⟩

-- Only what the reader has got matters, and how its last call has failed.
theorem Reader.Sound.congr (hr : r.Sound states emitted) (hname : r'.name = r.name)
    (hcursor : r'.cursor = r.cursor) (hfirst : r'.first = r.first) (hyield : r'.yielded = r.yielded)
    (hphase : r'.phase = r.phase ∨ ∀ name c seq, r'.phase ≠ .failed (.eventCursorExpired name c seq)) :
    r'.Sound states emitted := by
  constructor
  case follows =>
    rw [Reader.Follows, hname, hcursor, hfirst, hyield]
    exact hr.follows
  case failed  =>
    intro name c seq h
    cases hphase
    case inl hphase =>
      rw [hname, hcursor]
      exact hr.failed name c seq <| hphase ▸ h
    case inr hnot   => exact absurd h <| hnot name c seq

theorem Reader.Sound.settled (hr : r.Sound states emitted) (hs : states.Sound emitted) :
    (r.settled (states.readReplay r.args).snd).Sound states emitted := by
  have hname : (r.settled (states.readReplay r.args).snd).name = r.name := by
    rw [Reader.settled.eq_def]
    split
    · rfl
    · rfl
  constructor
  case follows =>
    rw [hname]
    exact hr.follows.settled <| hs.windows _
  case failed  =>
    rw [hname]
    exact Reader.failed_settled <| hs.windows _

end Reader

end Events
