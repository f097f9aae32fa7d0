import Mathlib
import NeoTavern.Events.Store

namespace Events

variable {N P : Type}

-- The events of a name are numbered from 1 on.
def Numbered (h : List (EventEntry N P)) : Prop :=
  ∀ (i : Nat) (e : EventEntry N P), h[i]? = some e → e.seq = i + 1

-- A ring keeps the last events of a name, down to where it has been cut off.
structure Window (s : EventNameState N P) (h : List (EventEntry N P)) : Prop where
  entries  : s.entries = h.drop s.evictedUpToSeq
  nextSeq  : s.nextSeq = h.length + 1
  bound    : s.evictedUpToSeq ≤ h.length
  numbered : Numbered h

namespace Window

variable {s : EventNameState N P} {h es : List (EventEntry N P)} {e : EventEntry N P} {n c : Nat}

theorem initial : Window ({} : EventNameState N P) [] where
  entries  := rfl
  nextSeq  := rfl
  bound    := Nat.le_refl _
  numbered := by simp [Numbered]

theorem head (hw : Window s h) (hs : s.entries = e :: es) :
    h[s.evictedUpToSeq]? = some e ∧ e.seq = s.evictedUpToSeq + 1 := by
  have he : h[s.evictedUpToSeq]? = some e := by
    rw [← List.head?_drop, ← hw.entries, hs, List.head?_cons]
  exact ⟨he, hw.numbered _ _ he⟩

theorem shift (hw : Window s h) : Window s.shift h := by
  rw [EventNameState.shift]
  split
  case h_1 => exact hw
  case h_2 e es hs =>
    have ⟨he, hseq⟩ := hw.head hs
    have hlt := (List.getElem?_eq_some_iff.mp he).fst
    have hmax : max s.evictedUpToSeq e.seq = s.evictedUpToSeq + 1 := by omega
    constructor
    case entries  =>
      dsimp only
      rw [hmax, ← List.tail_drop, ← hw.entries, hs, List.tail_cons]
    case nextSeq  => exact hw.nextSeq
    case bound    =>
      dsimp only
      omega
    case numbered => exact hw.numbered

theorem shifts (hw : Window s h) : Window (EventNameState.shift^[n] s) h := by
  induction n generalizing s
  case zero      => exact hw
  case succ n ih => exact ih hw.shift

theorem trimFrom (hw : Window s h) : Window (EventNameState.trimFrom n s) h := by
  induction n generalizing s
  case zero      => exact hw
  case succ n ih =>
    rw [EventNameState.trimFrom]
    split
    · exact ih hw.shift
    · exact hw

theorem push (hw : Window s h) (he : e.seq = s.nextSeq) : Window (s.push e) (h ++ [e]) := by
  constructor
  case entries  =>
    rw [EventNameState.push, List.drop_append_of_le_length hw.bound, hw.entries]
  case nextSeq  =>
    rw [EventNameState.push, List.length_append, hw.nextSeq, List.length_singleton]
  case bound    =>
    rw [EventNameState.push, List.length_append]
    exact Nat.le_add_right_of_le hw.bound
  case numbered =>
    intro i x hx
    rw [List.getElem?_append] at hx
    split at hx
    case isTrue  => exact hw.numbered i x hx
    case isFalse =>
      have ⟨hi, heq⟩ := List.getElem?_eq_some_iff.mp hx
      rw [List.getElem_singleton] at heq
      rw [List.length_singleton] at hi
      rw [← heq, he, hw.nextSeq]
      omega

-- An event is retained exactly if its number is above the mark.
theorem mem_iff (hw : Window s h) (he : e ∈ h) : e ∈ s.entries ↔ s.evictedUpToSeq < e.seq := by
  have ⟨i, hi⟩ := List.mem_iff_getElem?.mp he
  have hseq := hw.numbered i e hi
  rw [hw.entries, List.mem_iff_getElem?]
  constructor
  case mp  =>
    intro ⟨j, hj⟩
    rw [List.getElem?_drop] at hj
    have := hw.numbered _ e hj
    omega
  case mpr =>
    intro hlt
    exact ⟨i - s.evictedUpToSeq, by rw [List.getElem?_drop, ← hi]; congr 1; omega⟩

-- A cursor has fallen outside of the window exactly if an event after it has been removed.
theorem lt_iff (hw : Window s h) :
    c < s.evictedUpToSeq ↔ ∃ e ∈ h, c < e.seq ∧ e ∉ s.entries := by
  constructor
  case mp  =>
    intro hc
    have hlt : s.evictedUpToSeq - 1 < h.length := by
      have := hw.bound
      omega
    have hget : h[s.evictedUpToSeq - 1]? = some h[s.evictedUpToSeq - 1] := by
      rw [List.getElem?_eq_getElem hlt]
    have hseq := hw.numbered _ _ hget
    have hmem := List.getElem_mem hlt
    refine ⟨_, hmem, by omega, fun h => ?_⟩
    have := (hw.mem_iff hmem).mp h
    omega
  case mpr =>
    intro ⟨e, he, hc, hnot⟩
    have := mt (hw.mem_iff he).mpr hnot
    omega

-- What comes after a number in the window is what comes after it in the history.
theorem drop_findIdx (hw : Window s h) (hc : s.evictedUpToSeq ≤ c) :
    (s.entries.findIdx? (·.seq > c)).elim [] (s.entries.drop ·) = h.drop c := by
  have hnum (i : Nat) (e : EventEntry N P) (hi : s.entries[i]? = some e) :
      e.seq = s.evictedUpToSeq + i + 1 := by
    rw [hw.entries, List.getElem?_drop] at hi
    exact hw.numbered _ _ hi
  have hlen : s.entries.length = h.length - s.evictedUpToSeq := by rw [hw.entries, List.length_drop]
  cases hfind : s.entries.findIdx? (·.seq > c)
  case none =>
    rw [List.findIdx?_eq_none_iff] at hfind
    rw [Option.elim_none, eq_comm, List.drop_eq_nil_iff]
    by_contra hlt
    have hi : c - s.evictedUpToSeq < s.entries.length := by omega
    have := hfind _ <| List.getElem_mem hi
    have := hnum _ _ <| List.getElem?_eq_getElem hi
    simp at *
    omega
  case some i =>
    rw [List.findIdx?_eq_some_iff_getElem] at hfind
    have ⟨hi, hgt, hle⟩ := hfind
    have hseq := hnum i _ <| List.getElem?_eq_getElem hi
    have heq : i = c - s.evictedUpToSeq := by
      by_contra hne
      have hlt : c - s.evictedUpToSeq < i := by
        have : c < s.evictedUpToSeq + i + 1 := by simpa [hseq] using hgt
        omega
      have hj := hnum _ _ <| List.getElem?_eq_getElem (Nat.lt_trans hlt hi)
      have := hle _ hlt
      simp [hj] at this
      omega
    rw [Option.elim_some, hw.entries, List.drop_drop, heq, Nat.add_sub_cancel' hc]

end Window

namespace EventNameState

variable {s : EventNameState N P} {cutoff : Int} {n : Nat}

theorem shifts_eq (h : n ≤ s.entries.length) : shift^[n] s = { s with
    entries        := s.entries.drop n
    evictedUpToSeq := (s.entries.take n).foldl (fun seq e => max seq e.seq) s.evictedUpToSeq
  } := by
  induction n generalizing s
  case zero      => rfl
  case succ n ih =>
    cases hs : s.entries
    case nil       => simp [hs] at h
    case cons e es =>
      rw [hs, List.length_cons, Nat.add_le_add_iff_right] at h
      rw [Function.iterate_succ_apply, shift, hs]
      dsimp only
      rw [ih h]
      rfl

-- Whatever removes entries shifts the ring some times.
theorem sweep_eq (s : EventNameState N P) (cutoff : Int) : ∃ n, s.sweep cutoff = shift^[n] s := by
  refine ⟨(s.entries.takeWhile (·.emittedAt < cutoff)).length, ?_⟩
  rw [sweep, shifts_eq (List.takeWhile_sublist _).length_le]

theorem length_shift : s.shift.entries.length = s.entries.length - 1 := by
  rw [shift]
  split
  case h_1 h     => simp [h]
  case h_2 e _ h => simp [h]

theorem length_trimFrom : (trimFrom n s).entries.length ≤ s.entries.length := by
  induction n generalizing s
  case zero      => exact Nat.le_refl _
  case succ n ih =>
    rw [trimFrom]
    split
    · exact Nat.le_trans ih <| length_shift ▸ Nat.sub_le ..
    · exact Nat.le_refl _

theorem length_shifts : (shift^[n] s).entries.length = s.entries.length - n := by
  induction n generalizing s
  case zero      => rfl
  case succ n ih =>
    rw [Function.iterate_succ_apply, ih, length_shift]
    omega

end EventNameState

-- What has been emitted under a name.
def history [DecidableEq N] (emitted : List (EventEntry N P)) (name : N) : List (EventEntry N P) :=
  emitted.filter (·.name = name)

namespace EventStates

variable [DecidableEq N] {states states' states'' : EventStates N P} {name m : N}
  {s : EventNameState N P} {now t : Int} {n : Nat} {e : EventEntry N P} {payload : P}
  {emitted : List (EventEntry N P)} {args : SdkEventsReplayArgs N}

def stateOf (states : EventStates N P) (name : N) : EventNameState N P :=
  (Assoc.get states name).getD {}

theorem stateOf_set : stateOf (Assoc.set states name s) m = if m = name then s else stateOf states m := by
  rw [stateOf]
  split
  case isTrue h  => rw [h, Assoc.get_set_self, Option.getD_some]
  case isFalse h => rw [Assoc.get_set_of_ne h, stateOf]

@[simp]
theorem eventState_snd : (states.eventState name).snd = stateOf states name := by
  rw [eventState, stateOf]
  split
  case h_1 h => rw [h, Option.getD_some]
  case h_2 h => rw [h, Option.getD_none]

@[simp]
theorem stateOf_eventState : stateOf (states.eventState name).fst m = stateOf states m := by
  rw [eventState]
  split
  case h_1   => rfl
  case h_2 h =>
    rw [stateOf_set]
    split
    case isTrue heq => rw [heq, stateOf, h, Option.getD_none]
    case isFalse    => rfl

-- What a change of the rings that adds no entry comes down to.
def Cuts (states states' : EventStates N P) : Prop :=
  ∀ name, ∃ n, stateOf states' name = EventNameState.shift^[n] (stateOf states name)

namespace Cuts

theorem refl : Cuts states states :=
  fun _ => ⟨0, rfl⟩

theorem trans (h : Cuts states states') (h' : Cuts states' states'') : Cuts states states'' := by
  intro name
  have ⟨n, hn⟩ := h name
  have ⟨k, hk⟩ := h' name
  exact ⟨k + n, by rw [hk, hn, Function.iterate_add_apply]⟩

theorem set (h : ∃ n, s = EventNameState.shift^[n] (stateOf states name)) :
    Cuts states (Assoc.set states name s) := by
  intro m
  rw [stateOf_set]
  split
  case isTrue heq => exact heq ▸ h
  case isFalse    => exact ⟨0, rfl⟩

theorem eventState (name : N) : Cuts states (states.eventState name).fst :=
  fun _ => ⟨0, stateOf_eventState⟩

theorem sweepExpired (name : N) (now : Int) : Cuts states (states.sweepExpired name now) := by
  rw [EventStates.sweepExpired]
  split
  case h_1 state h =>
    have heq : stateOf states name = state := by rw [stateOf, h, Option.getD_some]
    exact set <| heq ▸ EventNameState.sweep_eq ..
  case h_2         => exact refl

end Cuts

-- The host's rings keep what they should of what has been emitted.
structure Sound (states : EventStates N P) (emitted : List (EventEntry N P)) : Prop where
  keys    : (states.map (·.fst)).Nodup
  windows : ∀ name, Window (stateOf states name) (history emitted name)

theorem keys_eventState (name : N) (h : (states.map (·.fst)).Nodup) :
    ((states.eventState name).fst.map (·.fst)).Nodup := by
  rw [eventState]
  split
  · exact h
  · exact Assoc.nodup_set h

theorem keys_sweepExpired (name : N) (now : Int) (h : (states.map (·.fst)).Nodup) :
    ((states.sweepExpired name now).map (·.fst)).Nodup := by
  rw [sweepExpired]
  split
  · exact Assoc.nodup_set h
  · exact h

theorem Sound.cuts (hs : Sound states emitted) (hkeys : (states'.map (·.fst)).Nodup)
    (h : Cuts states states') : Sound states' emitted := by
  refine ⟨hkeys, fun name => ?_⟩
  have ⟨n, hn⟩ := h name
  exact hn ▸ (hs.windows name).shifts

theorem Sound.eventState (hs : Sound states emitted) : Sound (states.eventState name).fst emitted :=
  hs.cuts (keys_eventState name hs.keys) <| Cuts.eventState name

theorem Sound.sweepExpired (hs : Sound states emitted) : Sound (states.sweepExpired name now) emitted :=
  hs.cuts (keys_sweepExpired name now hs.keys) <| Cuts.sweepExpired name now

theorem history_concat : history (emitted ++ [e]) m =
    if m = e.name then history emitted m ++ [e] else history emitted m := by
  rw [history, List.filter_append, ← history]
  split
  case isTrue h  => simp [h]
  case isFalse h => simp [Ne.symm h]

theorem Sound.pushed (name : N) (payload : P) (now t : Int) (hs : Sound states emitted) :
    Sound (states.pushed name payload now t).fst (emitted ++ [(states.pushed name payload now t).snd]) := by
  have hs' : Sound ((states.eventState name).fst.sweepExpired name now) emitted :=
    hs.eventState.sweepExpired
  constructor
  case keys    => exact Assoc.nodup_set hs'.keys
  case windows =>
    intro m
    rw [history_concat, EventStates.pushed]
    dsimp only
    rw [stateOf_set, eventState_snd]
    split
    case isTrue heq =>
      rw [heq]
      refine Window.trimFrom <| Window.push (hs'.windows name) ?_
      rfl
    case isFalse    => exact hs'.windows m

theorem total_set (name : N) (s : EventNameState N P) (h : (states.map (·.fst)).Nodup) :
    total (Assoc.set states name s) + (stateOf states name).entries.length =
      total states + s.entries.length := by
  have := Assoc.sum_set (k := name) (v := s) (f := fun s : EventNameState N P => s.entries.length) h
  rw [stateOf]
  cases hget : Assoc.get states name
  case none   => rwa [hget] at this
  case some s => rwa [hget] at this

theorem total_eventState (name : N) (h : (states.map (·.fst)).Nodup) :
    total (states.eventState name).fst = total states := by
  rw [eventState]
  split
  case h_1      => rfl
  case h_2 hget =>
    have := total_set name {} h
    rwa [stateOf, hget] at this

theorem total_sweepExpired (name : N) (now : Int) (h : (states.map (·.fst)).Nodup) :
    total (states.sweepExpired name now) ≤ total states := by
  rw [sweepExpired]
  split
  case h_1 state hget =>
    have := total_set name (state.sweep (now - eventsTtlMs)) h
    have ⟨n, hn⟩ := EventNameState.sweep_eq state (now - eventsTtlMs)
    rw [hn, stateOf, hget, Option.getD_some, EventNameState.length_shifts] at this
    rw [hn]
    omega
  case h_2            => exact Nat.le_refl _

theorem total_set_le (h : (states.map (·.fst)).Nodup)
    (hs : s.entries.length ≤ (stateOf states name).entries.length + 1) :
    total (Assoc.set states name s) ≤ total states + 1 := by
  have := total_set name s h
  omega

-- An emit adds one entry at most.
theorem total_pushed (name : N) (payload : P) (now t : Int) (h : (states.map (·.fst)).Nodup) :
    total (states.pushed name payload now t).fst ≤ total states + 1 := by
  have hkeys := keys_eventState name h
  have hle := total_sweepExpired name now hkeys
  rw [total_eventState name h] at hle
  refine Nat.le_trans (total_set_le (keys_sweepExpired name now hkeys) ?_) (Nat.add_le_add_right hle 1)
  rw [eventState_snd]
  refine Nat.le_trans EventNameState.length_trimFrom ?_
  rw [EventNameState.push, List.length_append]
  exact Nat.le_refl _

end EventStates

end Events

namespace Events

variable {N P : Type}

namespace EventStates

variable {states pre post : EventStates N P} {x : N × EventNameState N P} {name : N} {e : EventEntry N P}
  {seq n : Nat}

-- The first entry of the name has the smallest number of all first entries, and of the names with
-- such an entry it is the one that came first.
def Leads (states : EventStates N P) (name : N) (e : EventEntry N P) : Prop :=
  ∃ pre state post, states = pre ++ (name, state) :: post ∧ state.entries.head? = some e ∧
    (∀ x ∈ pre, ∀ f ∈ x.snd.entries.head?, e.seq < f.seq) ∧
    ∀ x ∈ post, ∀ f ∈ x.snd.entries.head?, e.seq ≤ f.seq

theorem Leads.head (h : Leads states name e) : ∃ x ∈ states, x.snd.entries.head? = some e := by
  have ⟨pre, state, post, heq, hhead, _⟩ := h
  exact ⟨(name, state), by simp [heq], hhead⟩

theorem Leads.le (h : Leads states name e) (hx : x ∈ states) {f : EventEntry N P}
    (hf : x.snd.entries.head? = some f) : e.seq ≤ f.seq := by
  have ⟨pre, state, post, heq, hhead, hpre, hpost⟩ := h
  rw [heq, List.mem_append, List.mem_cons] at hx
  rcases hx with hx | hx | hx
  · exact Nat.le_of_lt <| hpre x hx f hf
  · rw [hx, hhead] at hf
    exact Nat.le_of_eq <| congrArg _ <| Option.some.inj hf
  · exact hpost x hx f hf

theorem oldest_concat : oldest (states ++ [x]) =
    match x.snd.entries.head? with
    | some first =>
      if (oldest states).all (first.seq < ·.snd) then some (x.fst, first.seq) else oldest states
    | none       => oldest states := by
  rw [oldest, List.foldl_append]
  rfl

theorem oldest_spec (states : EventStates N P) : (∃ name e, oldest states = some (name, e.seq) ∧ Leads states name e) ∨
    oldest states = none ∧ ∀ x ∈ states, x.snd.entries = [] := by
  induction states using List.reverseRecOn
  case nil                => exact .inr ⟨rfl, by simp⟩
  case append_singleton states x ih =>
    rw [oldest_concat]
    cases hhead : x.snd.entries.head?
    case none =>
      dsimp only
      have hempty := List.head?_eq_none_iff.mp hhead
      cases ih
      case inl ih =>
        have ⟨name, e, hold, pre, state, post, heq, he, hpre, hpost⟩ := ih
        refine .inl ⟨name, e, hold, pre, state, post ++ [x], by simp [heq], he, hpre, ?_⟩
        intro y hy f hf
        rcases List.mem_append.mp hy with hy | hy
        · exact hpost y hy f hf
        · rw [List.mem_singleton.mp hy, hhead] at hf
          cases hf
      case inr ih =>
        refine .inr ⟨ih.left, fun y hy => ?_⟩
        rcases List.mem_append.mp hy with hy | hy
        · exact ih.right y hy
        · rwa [List.mem_singleton.mp hy]
    case some first =>
      dsimp only
      left
      cases ih
      case inl ih =>
        have ⟨name, e, hold, hleads⟩ := ih
        rw [hold, Option.all_some]
        split
        case isTrue hlt   =>
          have hlt : first.seq < e.seq := by simpa using hlt
          refine ⟨x.fst, first, rfl, states, x.snd, [], rfl, hhead, fun y hy f hf => ?_, by simp⟩
          exact Nat.lt_of_lt_of_le hlt <| hleads.le hy hf
        case isFalse hnot =>
          have hle : e.seq ≤ first.seq := by simpa using hnot
          have ⟨pre, state, post, heq, he, hpre, hpost⟩ := hleads
          refine ⟨name, e, rfl, pre, state, post ++ [x], by simp [heq], he, hpre, ?_⟩
          intro y hy f hf
          rcases List.mem_append.mp hy with hy | hy
          · exact hpost y hy f hf
          · rw [List.mem_singleton.mp hy, hhead] at hf
            rwa [← Option.some.inj hf]
      case inr ih =>
        rw [ih.left, Option.all_none, if_pos rfl]
        refine ⟨x.fst, first, rfl, states, x.snd, [], rfl, hhead, fun y hy f hf => ?_, by simp⟩
        rw [ih.right y hy] at hf
        cases hf

-- There is one name at most that leads.
theorem oldest_of_leads (h : Leads states name e) : oldest states = some (name, e.seq) := by
  have ⟨pre, state, post, heq, he, hpre, hpost⟩ := h
  subst heq
  clear h
  induction post using List.reverseRecOn
  case nil                            =>
    have hall : (oldest pre).all (e.seq < ·.snd) = true := by
      rcases oldest_spec pre with ⟨m, f, hold, hleads⟩ | ⟨hold, _⟩
      · have ⟨x, hx, hf⟩ := hleads.head
        simp [hold, hpre x hx f hf]
      · simp [hold]
    rw [oldest_concat, he]
    dsimp only
    rw [if_pos hall]
  case append_singleton post x ih =>
    have ih := ih fun y hy => hpost y <| List.mem_append_left _ hy
    rw [← List.cons_append, ← List.append_assoc, oldest_concat, ih]
    split
    case h_1 first hhead =>
      have hle := hpost x (by simp) first hhead
      rw [if_neg]
      simpa using hle
    case h_2             => rfl

-- What the first entry of the name that leads is like besides its number: it is the oldest of all.
def Agrees (states : EventStates N P) : Prop :=
  ∀ name e, Leads states name e → ∀ f ∈ states.retained, e.emittedAt ≤ f.emittedAt

variable [DecidableEq N]

theorem evictGlobalOldest_of_leads (hkeys : (states.map (·.fst)).Nodup) (h : Leads states name e) :
    states.evictGlobalOldest = (Assoc.set states name (stateOf states name).shift, some e) := by
  have ⟨pre, state, post, heq, he, _⟩ := h
  have hget : Assoc.get states name = some state := Assoc.get_of_mem hkeys <| by simp [heq]
  rw [evictGlobalOldest, oldest_of_leads h]
  dsimp only
  rw [hget]
  dsimp only
  rw [he, stateOf, hget, Option.getD_some]

theorem evictGlobalOldest_of_none (h : oldest states = none) :
    states.evictGlobalOldest = (states, none) := by
  rw [evictGlobalOldest, h]

theorem cuts_evictGlobalOldest (hkeys : (states.map (·.fst)).Nodup) :
    Cuts states states.evictGlobalOldest.fst ∧ (states.evictGlobalOldest.fst.map (·.fst)).Nodup ∧
    total states.evictGlobalOldest.fst = total states - 1 := by
  rcases oldest_spec states with ⟨name, e, _, hleads⟩ | ⟨hold, hempty⟩
  · rw [evictGlobalOldest_of_leads hkeys hleads]
    refine ⟨Cuts.set ⟨1, rfl⟩, Assoc.nodup_set hkeys, ?_⟩
    have hset := total_set name (stateOf states name).shift hkeys
    have ⟨pre, state, post, heq, he, _⟩ := hleads
    have hget : Assoc.get states name = some state := Assoc.get_of_mem hkeys <| by simp [heq]
    have hpos : 0 < (stateOf states name).entries.length := by
      rw [stateOf, hget, Option.getD_some]
      exact List.length_pos_of_mem <| List.mem_of_head? he
    rw [EventNameState.length_shift] at hset
    dsimp only
    omega
  · rw [evictGlobalOldest_of_none hold]
    have hzero : total states = 0 := by
      rw [total, List.sum_eq_zero_iff_forall_eq_nat]
      intro l hl
      have ⟨x, hx, heq⟩ := List.mem_map.mp hl
      rw [← heq, hempty x hx, List.length_nil]
    exact ⟨Cuts.refl, hkeys, by rw [hzero]⟩

theorem cuts_evictTotal (hkeys : (states.map (·.fst)).Nodup) (hn : total states = n) :
    Cuts states (evictTotal n states).fst ∧ ((evictTotal n states).fst.map (·.fst)).Nodup ∧
    total (evictTotal n states).fst ≤ eventsTotal := by
  induction n generalizing states
  case zero      => exact ⟨Cuts.refl, hkeys, Nat.le_trans (Nat.le_of_eq hn) (Nat.zero_le _)⟩
  case succ n ih =>
    rw [evictTotal]
    split
    case isTrue       =>
      have ⟨hcuts, hkeys', htotal⟩ := cuts_evictGlobalOldest hkeys
      have ⟨hcuts', hkeys'', htotal'⟩ := ih hkeys' <| by rw [htotal, hn, Nat.add_sub_cancel]
      exact ⟨hcuts.trans hcuts', hkeys'', htotal'⟩
    case isFalse hnot => exact ⟨Cuts.refl, hkeys, hn ▸ Nat.le_of_not_lt hnot⟩

theorem evictTotal_of_le (h : n ≤ eventsTotal) : evictTotal n states = (states, []) := by
  cases n
  case zero   => rfl
  case succ n => rw [evictTotal, if_neg (Nat.not_lt_of_le h)]

-- The entry that has been removed is the oldest of those that had been retained.
def Eviction.IsOldest (v : Eviction N P) : Prop :=
  ∀ f ∈ v.retained, v.entry.emittedAt ≤ f.emittedAt

theorem evictTotal_iff (hkeys : (states.map (·.fst)).Nodup) (hle : total states ≤ eventsTotal + 1) :
    (∀ v ∈ (evictTotal (total states) states).snd, v.IsOldest) ↔
      (eventsTotal < total states → Agrees states) := by
  by_cases hlt : eventsTotal < total states
  case neg =>
    rw [evictTotal_of_le <| Nat.le_of_not_lt hlt]
    exact iff_of_true (by simp) (absurd · hlt)
  case pos =>
    have heq : total states = eventsTotal + 1 := by omega
    rw [imp_iff_right hlt, heq, evictTotal, if_pos (Nat.lt_succ_self _)]
    dsimp only
    rw [evictTotal_of_le (Nat.le_refl _), List.append_nil]
    rcases oldest_spec states with ⟨name, e, hold, hleads⟩ | ⟨hold, hempty⟩
    · rw [evictGlobalOldest_of_leads hkeys hleads]
      constructor
      case mp  =>
        intro h m f hf
        have hpair := (oldest_of_leads hf).symm.trans hold
        have heq : f = e := by
          have := (evictGlobalOldest_of_leads hkeys hf).symm.trans (evictGlobalOldest_of_leads hkeys hleads)
          exact Option.some.inj (Prod.mk.inj this).right
        exact heq ▸ h { entry := e, retained := states.retained } (by simp)
      case mpr =>
        intro h v hv
        have heq : v = { entry := e, retained := states.retained } := by simpa using hv
        exact heq ▸ h name e hleads
    · rw [evictGlobalOldest_of_none hold]
      refine iff_of_true (by simp) fun name e hleads => ?_
      rw [oldest_of_leads hleads] at hold
      cases hold

end EventStates
end Events
