import NeoTavern.Lib.Runs

namespace LiveEvents

structure SdkEventEnvelope (P : Type) where
  seq     : Nat
  payload : P
  deriving DecidableEq

-- The ring of one event name.
structure EventNameState (P : Type) where
  entries        : List (SdkEventEnvelope P) := []
  nextSeq        : Nat := 1
  evictedUpToSeq : Nat := 0
  deriving DecidableEq

-- How far a call of `next` has come: there is none, it waits for a push, or it has asked for a replay
-- that has (`replayed`) or has not been answered. An answer without events is an error.
inductive Phase (P : Type)
  | idle
  | waiting
  | replaying
  | replayed (events : Option (List (SdkEventEnvelope P)))
  deriving DecidableEq

namespace Phase

variable {P : Type}

def isIdle : Phase P → Bool
  | idle => true
  | _    => false

def isWaiting : Phase P → Bool
  | waiting => true
  | _       => false

def isReplaying : Phase P → Bool
  | replaying => true
  | _         => false

end Phase

-- The host, the pushes on their way and the subscription of a worker. `emitted` and `returned` are
-- what has been emitted so far and what the consumer has got, and the consumer asks for what comes
-- after the number `start`. The host has not got the subscription yet, pushes, or pushes no more.
structure Feed (P : Type) where
  events     : EventNameState P := {}
  emitted    : List (SdkEventEnvelope P) := []
  pushing    : Option Bool := none
  pushes     : List (SdkEventEnvelope P) := []
  cursor     : Option Nat
  start      : Nat := cursor.getD 0
  registered : Bool := false
  lastSeq    : Nat := cursor.getD 0
  queue      : List (SdkEventEnvelope P) := []
  closed     : Bool := false
  phase      : Phase P := .idle
  returned   : List (SdkEventEnvelope P) := []
  deriving DecidableEq

-- An entry is evicted when its time is over or when the entries of all names are too many.
inductive Event (P : Type)
  | emit (payload : P)
  | evict
  | subscribe
  | unsubscribe
  | register
  | deliver
  | lose (i : Nat)
  | next
  | timeout
  | replay
  | answer
  | fail
  | close
  deriving DecidableEq

def eventsPerName := 128
def eventsMaxReplayLimit := 64
def sdkEventPushQueue := 128

namespace EventNameState

variable {P : Type}

-- Removes the oldest entries down to the bound.
def trim (s : EventNameState P) : List (SdkEventEnvelope P) → EventNameState P
  | []           => { s with entries := [] }
  | e :: entries =>
    if (e :: entries).length > eventsPerName then
      trim { s with evictedUpToSeq := max s.evictedUpToSeq e.seq } entries
    else
      { s with entries := e :: entries }

def emit (s : EventNameState P) (payload : P) : EventNameState P × SdkEventEnvelope P :=
  let envelope := { seq := s.nextSeq, payload }
  (trim { s with nextSeq := s.nextSeq + 1 } (s.entries ++ [envelope]), envelope)

def evict (s : EventNameState P) : EventNameState P :=
  match s.entries with
  | []           => s
  | e :: entries => { s with entries, evictedUpToSeq := max s.evictedUpToSeq e.seq }

-- There is no result if the cursor fell outside of the window or is ahead of the newest event.
def readReplay (s : EventNameState P) (cursor : Option Nat) (limit : Nat) :
    Option (List (SdkEventEnvelope P)) :=
  if cursor.any (· < s.evictedUpToSeq) || cursor.any (s.nextSeq ≤ ·) then
    none
  else
    let from_ := match cursor with
      | none   => s.entries
      | some c => s.entries.dropWhile (·.seq ≤ c)
    some (from_.take limit)

end EventNameState

namespace Feed

variable {P : Type}

-- The first envelope of a queue that has not been seen, and what is left after it.
def unseen (lastSeq : Nat) :
    List (SdkEventEnvelope P) → Option (SdkEventEnvelope P × List (SdkEventEnvelope P))
  | []         => none
  | e :: queue => if e.seq ≤ lastSeq then unseen lastSeq queue else some (e, queue)

-- The loop of `next`, up to where it returns or waits.
def loop (s : Feed P) : Feed P :=
  match unseen s.lastSeq s.queue with
  | some (e, queue) =>
    { s with queue, lastSeq := e.seq, returned := s.returned ++ [e], phase := .idle }
  | none            => { s with queue := [], phase := if s.closed then .idle else .waiting }

def next (s : Feed P) : Feed P :=
  if s.closed then s else s.loop

def handleEventPush (s : Feed P) (envelope : SdkEventEnvelope P) : Feed P :=
  if !s.registered || s.closed || envelope.seq ≤ s.lastSeq then
    s
  else
    let queue := if s.queue.length ≥ sdkEventPushQueue then s.queue.tail else s.queue
    let s := { s with queue := queue ++ [envelope] }
    if s.phase.isWaiting then s.loop else s

-- The envelopes of a replay that are new join the queue while there is room.
def enqueue (lastSeq : Nat) (queue : List (SdkEventEnvelope P)) :
    List (SdkEventEnvelope P) → List (SdkEventEnvelope P)
  | []          => queue
  | e :: events =>
    if e.seq ≤ lastSeq || queue.length ≥ sdkEventPushQueue then
      enqueue lastSeq queue events
    else
      enqueue lastSeq (queue ++ [e]) events

def answered (s : Feed P) (events : Option (List (SdkEventEnvelope P))) : Feed P :=
  { s with queue := enqueue s.lastSeq s.queue (events.getD []) }.loop

-- The cursor of a replay is left out if nothing has been seen.
def replayCursor (s : Feed P) : Option Nat :=
  if s.lastSeq > 0 then some s.lastSeq else none

def close (s : Feed P) : Feed P :=
  { s with closed := true, phase := if s.phase.isWaiting then .idle else s.phase }

def step (s : Feed P) : Event P → Feed P
  | .emit payload =>
    let (events, envelope) := s.events.emit payload
    { s with
      events
      emitted := s.emitted ++ [envelope]
      pushes  := if s.pushing = some true then s.pushes ++ [envelope] else s.pushes
    }
  | .evict       => { s with events := s.events.evict }
  | .subscribe   =>
    if s.pushing = none then
      { s with pushing := some true, start := s.cursor.getD (s.events.nextSeq - 1) }
    else
      s
  | .unsubscribe => { s with pushing := s.pushing.map fun _ => false }
  | .register    => if s.pushing = none then s else { s with registered := true }
  | .deliver     =>
    match s.pushes with
    | []                 => s
    | envelope :: pushes => { s with pushes }.handleEventPush envelope
  | .lose i      => { s with pushes := s.pushes.eraseIdx i }
  | .next        => if s.registered && s.phase.isIdle then s.next else s
  | .timeout     => if s.phase.isWaiting then { s with phase := .replaying } else s
  | .replay      =>
    if s.phase.isReplaying then
      { s with phase := .replayed (s.events.readReplay s.replayCursor eventsMaxReplayLimit) }
    else
      s
  | .answer      =>
    match s.phase with
    | .replayed events => s.answered events
    | _                => s
  | .fail        =>
    match s.phase with
    | .replaying  => s.answered none
    | .replayed _ => s.answered none
    | _           => s
  | .close       => s.close

end Feed
end LiveEvents

namespace LiveEvents

variable {P : Type} {b b' a : Nat} {e : SdkEventEnvelope P} {q q' es : List (SdkEventEnvelope P)}

section Flow

-- A queue that leaves nothing out from the number `b` on.
def Flows : Nat → List (SdkEventEnvelope P) → Prop
  | _, []     => True
  | b, e :: q => e.seq ≤ b + 1 ∧ Flows (max b e.seq) q

-- How far the queue reaches.
def reach : Nat → List (SdkEventEnvelope P) → Nat
  | b, []     => b
  | b, e :: q => reach (max b e.seq) q

theorem Flows.mono (h : Flows b q) (hb : b ≤ b') : Flows b' q := by
  induction q generalizing b b'
  case nil => trivial
  case cons e q ih =>
    have ⟨he, hq⟩ := h
    exact ⟨by omega, ih hq (by omega)⟩

theorem flows_append : Flows b (q ++ q') ↔ Flows b q ∧ Flows (reach b q) q' := by
  induction q generalizing b
  case nil => simp [Flows, reach]
  case cons e q ih =>
    rw [List.cons_append, Flows, Flows, reach, ih, and_assoc]

theorem reach_append : reach b (q ++ q') = reach (reach b q) q' := by
  induction q generalizing b
  case nil          => rfl
  case cons e q ih  => exact ih

theorem le_reach : b ≤ reach b q := by
  induction q generalizing b
  case nil => exact Nat.le_refl _
  case cons e q ih => exact Nat.le_trans (Nat.le_max_left ..) ih

theorem seq_le_reach (h : e ∈ q) : e.seq ≤ reach b q := by
  induction q generalizing b
  case nil => cases h
  case cons x q ih =>
    cases h
    case head   => exact Nat.le_trans (Nat.le_max_right ..) le_reach
    case tail h => exact ih h

theorem flows_concat : Flows b (q ++ [e]) ↔ Flows b q ∧ e.seq ≤ reach b q + 1 := by
  rw [flows_append, Flows, Flows, and_true]

-- An envelope that is not new makes no difference.
theorem flows_cons_old (h : e.seq ≤ b) : Flows b (e :: q) ↔ Flows b q := by
  rw [Flows, Nat.max_eq_left h]
  exact and_iff_right <| Nat.le_succ_of_le h

theorem reach_cons_old (h : e.seq ≤ b) : reach b (e :: q) = reach b q := by
  rw [reach, Nat.max_eq_left h]

-- A list without gaps that begins early enough.
theorem flows_of_consecutive (h : ∀ (i : Nat) e, q[i]? = some e → e.seq = a + i + 1) (hab : a ≤ b) :
    Flows b q := by
  induction q generalizing a b
  case nil => trivial
  case cons e q ih =>
    have he : e.seq = a + 1 := h 0 e rfl
    refine ⟨by omega, ih (a := a + 1) (fun i x hx => ?_) (by omega)⟩
    have := h (i + 1) x hx
    omega

theorem enqueue_full {lastSeq : Nat} (h : q.length ≥ sdkEventPushQueue) :
    Feed.enqueue lastSeq q es = q := by
  induction es
  case nil          => rfl
  case cons e es ih => rw [Feed.enqueue, if_pos (by simp [h]), ih]

-- The envelopes of a replay that are taken continue the queue.
theorem flows_enqueue {lastSeq c : Nat} (hl : lastSeq ≤ c) (hc : c ≤ reach b q) (hq : Flows b q)
    (hes : Flows c es) : Flows b (Feed.enqueue lastSeq q es) := by
  induction es generalizing c q
  case nil => exact hq
  case cons e es ih =>
    have ⟨he, hrest⟩ := hes
    rw [Feed.enqueue]
    by_cases hfull : q.length ≥ sdkEventPushQueue
    case pos =>
      rw [if_pos (by simp [hfull]), enqueue_full hfull]
      exact hq
    case neg =>
      split
      case isTrue hold =>
        have hold : e.seq ≤ lastSeq := by simpa [hfull] using hold
        rw [Nat.max_eq_left (Nat.le_trans hold hl)] at hrest
        exact ih hl hc hq hrest
      case isFalse hnew =>
        have hq' : Flows b (q ++ [e]) := flows_concat.mpr ⟨hq, by omega⟩
        refine ih (c := max c e.seq) (by omega) ?_ hq' hrest
        have hreach : reach b q ≤ reach b (q ++ [e]) := by
          rw [reach_append]
          exact le_reach
        have : e.seq ≤ reach b (q ++ [e]) := seq_le_reach (by simp)
        omega

theorem mem_enqueue {lastSeq : Nat} (h : e ∈ Feed.enqueue lastSeq q es) : e ∈ q ∨ e ∈ es := by
  induction es generalizing q
  case nil => exact .inl h
  case cons x es ih =>
    rw [Feed.enqueue] at h
    split at h
    · exact (ih h).imp_right <| List.mem_cons_of_mem _
    · rcases ih h with hq | hes
      · rcases List.mem_append.mp hq with hq | hx
        · exact .inl hq
        · exact .inr <| List.mem_singleton.mp hx ▸ List.mem_cons_self
      · exact .inr <| List.mem_cons_of_mem _ hes

-- What is drained is the next event, and the queue goes on from there.
theorem unseen_cases (lastSeq : Nat) (q : List (SdkEventEnvelope P)) :
    Feed.unseen lastSeq q = none ∨ ∃ old e q', Feed.unseen lastSeq q = some (e, q') ∧
      q = old ++ e :: q' ∧ (∀ x ∈ old, x.seq ≤ lastSeq) ∧ lastSeq < e.seq := by
  induction q
  case nil => exact .inl rfl
  case cons x q ih =>
    rw [Feed.unseen]
    split
    case isTrue hx =>
      rcases ih with hnone | ⟨old, e, q', heq, rfl, hold, hnew⟩
      · exact .inl hnone
      · refine .inr ⟨x :: old, e, q', heq, rfl, fun y hy => ?_, hnew⟩
        cases hy
        case head    => exact hx
        case tail hy => exact hold y hy
    case isFalse hx => exact .inr ⟨[], x, q, rfl, rfl, nofun, Nat.lt_of_not_le hx⟩

theorem flows_drop_old {old : List (SdkEventEnvelope P)} (hold : ∀ x ∈ old, x.seq ≤ b)
    (h : Flows b (old ++ q)) : Flows b q := by
  induction old
  case nil => exact h
  case cons x old ih =>
    have hx := hold x List.mem_cons_self
    exact ih (fun y hy => hold y <| List.mem_cons_of_mem _ hy) <| (flows_cons_old hx).mp h

end Flow

namespace EventNameState

-- The ring holds the last of all events, which are numbered from one on.
structure Ring (s : EventNameState P) (all : List (SdkEventEnvelope P)) : Prop where
  nextSeq : s.nextSeq = all.length + 1
  numbers : ∀ (i : Nat) e, all[i]? = some e → e.seq = i + 1
  entries : s.entries = all.drop s.evictedUpToSeq
  evicted : s.evictedUpToSeq ≤ all.length

variable {s : EventNameState P} {all : List (SdkEventEnvelope P)}

theorem head_of_drop (hn : ∀ (i : Nat) e, all[i]? = some e → e.seq = i + 1) (hq : e :: q = all.drop a) :
    max a e.seq = a + 1 ∧ q = all.drop (a + 1) ∧ a + 1 ≤ all.length := by
  have hget : all[a]? = some e := by
    rw [← List.head?_drop, ← hq, List.head?_cons]
  have hseq := hn _ e hget
  have hlt := (List.getElem?_eq_some_iff.mp hget).fst
  refine ⟨by omega, ?_, hlt⟩
  rw [← List.tail_drop, ← hq, List.tail_cons]

theorem Ring.evict (h : s.Ring all) : s.evict.Ring all := by
  unfold EventNameState.evict
  split
  case h_1 => exact h
  case h_2 e entries he =>
    have ⟨hmax, hrest, hle⟩ := head_of_drop h.numbers (he.symm.trans h.entries)
    exact ⟨h.nextSeq, h.numbers, hmax ▸ hrest, hmax ▸ hle⟩

theorem ring_trim (hs : s.nextSeq = all.length + 1) (hn : ∀ (i : Nat) e, all[i]? = some e → e.seq = i + 1)
    (hq : q = all.drop s.evictedUpToSeq) (he : s.evictedUpToSeq ≤ all.length) : (s.trim q).Ring all := by
  induction q generalizing s
  case nil => exact ⟨hs, hn, hq, he⟩
  case cons e q ih =>
    rw [EventNameState.trim]
    split
    case isFalse => exact ⟨hs, hn, hq, he⟩
    case isTrue  =>
      have ⟨hmax, hrest, hle⟩ := head_of_drop hn hq
      refine ih ?_ ?_ ?_
      · exact hs
      · rw [hmax]
        exact hrest
      · rw [hmax]
        exact hle

theorem Ring.emit (h : s.Ring all) (payload : P) :
    (s.emit payload).fst.Ring (all ++ [(s.emit payload).snd]) := by
  refine ring_trim ?_ (fun i e he => ?_) ?_ ?_
  · simp [h.nextSeq]
  · rcases Nat.lt_trichotomy i all.length with hlt | rfl | hgt
    · rw [List.getElem?_append_left hlt] at he
      exact h.numbers i e he
    · rw [List.getElem?_concat_length] at he
      cases he
      exact h.nextSeq
    · rw [List.getElem?_eq_none (by simp; omega)] at he
      cases he
  · rw [List.drop_append_of_le_length h.evicted, h.entries]
    rfl
  · simpa using Nat.le_succ_of_le h.evicted

theorem Ring.flows (h : s.Ring all) (hb : s.evictedUpToSeq ≤ b) : Flows b s.entries := by
  refine flows_of_consecutive (a := s.evictedUpToSeq) (fun i e he => ?_) hb
  rw [h.entries, List.getElem?_drop] at he
  exact h.numbers _ e he

-- What a replay reads are events without gaps, if the ring still has those that are needed.
theorem Ring.readReplay (h : s.Ring all) {cursor : Option Nat} {limit : Nat}
    (hr : s.readReplay cursor limit = some es) (hb : s.evictedUpToSeq ≤ b) (hc : ∀ c ∈ cursor, c ≤ b) :
    Flows b es := by
  have htake (q : List (SdkEventEnvelope P)) (hq : Flows b q) : Flows b (q.take limit) := by
    rw [← List.take_append_drop limit q, flows_append] at hq
    exact hq.left
  unfold EventNameState.readReplay at hr
  split at hr
  case isTrue     => cases hr
  case isFalse hn =>
    clear hn
    cases hr
    cases cursor
    case none   => exact htake _ (h.flows hb)
    case some c =>
      refine htake _ ?_
      have hflows := h.flows hb
      rw [← List.takeWhile_append_dropWhile (p := fun e => decide (e.seq ≤ c)) (l := s.entries)] at hflows
      refine flows_drop_old (fun x hx => ?_) hflows
      have hle : x.seq ≤ c := by simpa using List.all_eq_true.mp List.all_takeWhile x hx
      exact Nat.le_trans hle <| hc c rfl

theorem Ring.mem_readReplay (h : s.Ring all) {cursor : Option Nat} {limit : Nat}
    (hr : s.readReplay cursor limit = some es) (he : e ∈ es) : e ∈ all := by
  have hmem {e : SdkEventEnvelope P} (he : e ∈ s.entries) : e ∈ all :=
    List.mem_of_mem_drop (h.entries ▸ he)
  unfold EventNameState.readReplay at hr
  split at hr
  case isTrue  => cases hr
  case isFalse =>
    cases hr
    cases cursor
    case none   => exact hmem <| List.mem_of_mem_take he
    case some c =>
      have he := List.mem_of_mem_take he
      exact hmem <| (List.dropWhile_sublist _).mem he

end EventNameState

namespace Feed

variable {s : Feed P} {ev : Event P} {evs : List (Event P)}

-- What always holds: every envelope around is one of the emitted, what has been returned increases, and
-- nothing has been returned before the subscription has been registered.
structure Sound (s : Feed P) : Prop where
  ring       : s.events.Ring s.emitted
  pushes     : ∀ e ∈ s.pushes, e ∈ s.emitted
  queue      : ∀ e ∈ s.queue, e ∈ s.emitted
  replayed   : ∀ es, s.phase = .replayed (some es) → ∀ e ∈ es, e ∈ s.emitted
  returned   : ∀ e ∈ s.returned, e ∈ s.emitted ∧ e.seq ≤ s.lastSeq
  increasing : s.returned.Pairwise (·.seq < ·.seq)
  lastSeq    : s.lastSeq ≤ s.start ∨ s.lastSeq < s.events.nextSeq
  fresh      : s.registered = false →
    s.queue = [] ∧ s.phase = .idle ∧ s.returned = [] ∧ s.lastSeq = s.cursor.getD 0
  subscribed : s.pushing = none → s.registered = false

-- Nothing is left out of what has been returned, and of what the queue and a replay will make of it.
structure Gapless (s : Feed P) : Prop where
  queue    : Flows (max s.start s.lastSeq) s.queue
  replayed : ∀ es, s.phase = .replayed (some es) → Flows (max s.start s.lastSeq) es
  seen     : ∀ e ∈ s.emitted, s.start < e.seq → e.seq ≤ s.lastSeq → e ∈ s.returned

-- Two events of the same number are the same.
theorem Sound.inj (h : s.Sound) {x : SdkEventEnvelope P} (he : e ∈ s.emitted) (hx : x ∈ s.emitted)
    (heq : e.seq = x.seq) : e = x := by
  have ⟨i, hi⟩ := List.mem_iff_getElem?.mp he
  have ⟨j, hj⟩ := List.mem_iff_getElem?.mp hx
  have hie := h.ring.numbers i e hi
  have hjx := h.ring.numbers j x hj
  obtain rfl : i = j := by omega
  exact Option.some.inj <| hi.symm.trans hj

theorem Sound.seq_lt (h : s.Sound) (he : e ∈ s.emitted) : e.seq < s.events.nextSeq := by
  have ⟨i, hi⟩ := List.mem_iff_getElem?.mp he
  have hlt := (List.getElem?_eq_some_iff.mp hi).fst
  rw [h.ring.numbers i e hi, h.ring.nextSeq]
  omega

theorem loop_cases (s : Feed P) :
    (s.loop = { s with queue := [], phase := if s.closed then .idle else .waiting }) ∨
    ∃ old e q, s.queue = old ++ e :: q ∧ (∀ x ∈ old, x.seq ≤ s.lastSeq) ∧ s.lastSeq < e.seq ∧
      s.loop = { s with queue := q, lastSeq := e.seq, returned := s.returned ++ [e], phase := .idle } := by
  rcases unseen_cases s.lastSeq s.queue with hnone | ⟨old, e, q, heq, hq, hold, hnew⟩
  · refine .inl ?_
    rw [loop, hnone]
  · refine .inr ⟨old, e, q, hq, hold, hnew, ?_⟩
    rw [loop, heq]

theorem Sound.loop (h : s.Sound) (hr : s.registered) : s.loop.Sound := by
  have hfresh {t : Feed P} (ht : t.registered = s.registered) (hf : t.registered = false) : False := by
    rw [ht, hr] at hf
    cases hf
  have hsub (hn : s.pushing = none) : s.registered = false := h.subscribed hn
  rcases loop_cases s with heq | ⟨old, e, q, hq, hold, hnew, heq⟩
  · rw [heq]
    refine ⟨h.ring, h.pushes, nofun, fun es he => ?_, h.returned, h.increasing, h.lastSeq,
      fun hf => (hfresh rfl hf).elim, hsub⟩
    dsimp only at he
    split at he <;> cases he
  · rw [heq]
    have hmem : e ∈ s.emitted := h.queue e <| by simp [hq]
    refine ⟨h.ring, h.pushes, fun x hx => h.queue x <| by simp [hq, hx], nofun, fun x hx => ?_, ?_,
      .inr <| h.seq_lt hmem, fun hf => (hfresh rfl hf).elim, hsub⟩
    · rcases List.mem_append.mp hx with hx | hx
      · have ⟨hx, hle⟩ := h.returned x hx
        exact ⟨hx, Nat.le_of_lt <| Nat.lt_of_le_of_lt hle hnew⟩
      · rw [List.mem_singleton.mp hx]
        exact ⟨hmem, Nat.le_refl _⟩
    · rw [List.pairwise_append]
      refine ⟨h.increasing, List.pairwise_singleton .., fun x hx y hy => ?_⟩
      rw [List.mem_singleton.mp hy]
      exact Nat.lt_of_le_of_lt (h.returned x hx).right hnew

theorem Gapless.loop (hs : s.Sound) (h : s.Gapless) : s.loop.Gapless := by
  rcases loop_cases s with heq | ⟨old, e, q, hq, hold, hnew, heq⟩
  · rw [heq]
    refine ⟨trivial, fun es he => ?_, h.seen⟩
    dsimp only at he
    split at he <;> cases he
  · rw [heq]
    have hflows := h.queue
    rw [hq] at hflows
    have hflows := flows_drop_old (fun x hx => Nat.le_trans (hold x hx) (Nat.le_max_right ..)) hflows
    have hmem : e ∈ s.emitted := hs.queue e <| by simp [hq]
    refine ⟨hflows.right.mono (by dsimp only; omega), nofun, fun x hx hstart hle => ?_⟩
    by_cases hseen : x.seq ≤ s.lastSeq
    case pos => exact List.mem_append_left _ <| h.seen x hx hstart hseen
    case neg =>
      have hnext := hflows.left
      dsimp only at hle hstart
      obtain rfl := hs.inj hx hmem (by omega)
      exact List.mem_append_right _ List.mem_cons_self

-- The ring has the events that the consumer needs when a replay reads it.
def Holds (s : Feed P) : Event P → Prop
  | .replay => s.phase.isReplaying → s.events.evictedUpToSeq ≤ max s.start s.lastSeq
  | _       => True

-- A push that is taken follows on what has been seen or is queued, and what it drives out of a full
-- queue is not new.
def Joins (s : Feed P) : Event P → Prop
  | .deliver => ∀ e ∈ s.pushes.head?, s.registered → s.closed = false → s.lastSeq < e.seq →
    (s.queue.length < sdkEventPushQueue ∨ ∀ x ∈ s.queue.head?, x.seq ≤ max s.start s.lastSeq) ∧
      ∀ x ∈ s.emitted, s.start < x.seq → x.seq < e.seq → x.seq ≤ s.lastSeq ∨ x ∈ s.queue
  | _        => True

theorem Sound.requeue (h : s.Sound) (hr : s.registered) (hq : ∀ e ∈ q, e ∈ s.emitted) :
    Sound { s with queue := q } :=
  ⟨h.ring, h.pushes, hq, h.replayed, h.returned, h.increasing, h.lastSeq,
    fun hf => by simp [hr] at hf, h.subscribed⟩

theorem Sound.answered {events : Option (List (SdkEventEnvelope P))} (h : s.Sound) (hr : s.registered)
    (hq : ∀ es ∈ events, ∀ e ∈ es, e ∈ s.emitted) : (s.answered events).Sound := by
  have hs : Sound { s with queue := enqueue s.lastSeq s.queue (events.getD []) } := by
    refine h.requeue hr fun e he => ?_
    rcases mem_enqueue he with he | he
    · exact h.queue e he
    · cases events
      case none   => cases he
      case some _ => exact hq _ rfl e he
  exact hs.loop hr

theorem push_cases (s : Feed P) (e : SdkEventEnvelope P) :
    (s.handleEventPush e = s ∧ ¬(s.registered ∧ s.closed = false ∧ s.lastSeq < e.seq)) ∨
    ((s.registered ∧ s.closed = false ∧ s.lastSeq < e.seq) ∧ ∃ q : List (SdkEventEnvelope P),
      q = (if s.queue.length ≥ sdkEventPushQueue then s.queue.tail else s.queue) ++ [e] ∧
        (s.handleEventPush e = { s with queue := q } ∨ s.handleEventPush e = loop { s with queue := q })) := by
  rw [handleEventPush]
  split
  case isTrue h =>
    refine .inl ⟨rfl, fun ⟨hr, hc, hlt⟩ => ?_⟩
    simp [hr, hc, Nat.not_le.mpr hlt] at h
  case isFalse h =>
    simp only [Bool.or_eq_true, Bool.not_eq_true', decide_eq_true_eq, not_or, Bool.not_eq_false,
      Bool.not_eq_true, Nat.not_le] at h
    refine .inr ⟨⟨h.left.left, h.left.right, h.right⟩, _, rfl, ?_⟩
    dsimp only
    split
    · exact .inr rfl
    · exact .inl rfl

theorem Sound.push (h : s.Sound) (he : e ∈ s.emitted) : (s.handleEventPush e).Sound := by
  rcases push_cases s e with ⟨heq, _⟩ | ⟨⟨hr, _⟩, q, hq, hor⟩
  · rwa [heq]
  · have hs : Sound { s with queue := q } := by
      refine h.requeue hr fun x hx => ?_
      rw [hq] at hx
      rcases List.mem_append.mp hx with hx | hx
      · split at hx
        · exact h.queue x <| List.mem_of_mem_tail hx
        · exact h.queue x hx
      · rwa [List.mem_singleton.mp hx]
    rcases hor with heq | heq
    · rwa [heq]
    · rw [heq]
      exact hs.loop hr

theorem Sound.registered (h : s.Sound) (hp : s.phase ≠ .idle) : s.registered := by
  by_contra hr
  exact hp (h.fresh <| Bool.eq_false_iff.mpr hr).right.left

theorem Sound.rephase {phase : Phase P} (h : s.Sound) (hr : s.registered)
    (hp : ∀ es, phase = .replayed (some es) → ∀ e ∈ es, e ∈ s.emitted) : Sound { s with phase } :=
  ⟨h.ring, h.pushes, h.queue, hp, h.returned, h.increasing, h.lastSeq, fun hf => by simp [hr] at hf,
    h.subscribed⟩

theorem Sound.step (h : s.Sound) : (s.step ev).Sound := by
  cases ev
  case emit payload =>
    have hold {e : SdkEventEnvelope P} (he : e ∈ s.emitted) :
        e ∈ s.emitted ++ [(s.events.emit payload).snd] := List.mem_append_left _ he
    have hring := h.ring.emit payload
    refine ⟨hring, fun e he => ?_, fun e he => hold <| h.queue e he,
      fun es hes e he => hold <| h.replayed es hes e he,
      fun e he => ⟨hold (h.returned e he).left, (h.returned e he).right⟩, h.increasing, ?_, h.fresh, h.subscribed⟩
    · simp only [Feed.step] at he
      split at he
      · rcases List.mem_append.mp he with he | he
        · exact hold <| h.pushes e he
        · rw [List.mem_singleton.mp he]
          exact List.mem_append_right _ List.mem_cons_self
      · exact hold <| h.pushes e he
    · have hnext : (s.events.emit payload).fst.nextSeq = s.events.nextSeq + 1 := by
        rw [hring.nextSeq, h.ring.nextSeq, List.length_append]
        rfl
      rcases h.lastSeq with hl | hl
      · exact .inl hl
      · refine .inr ?_
        dsimp only [Feed.step]
        omega
  case evict =>
    have hnext : s.events.evict.nextSeq = s.events.nextSeq := by
      rw [h.ring.evict.nextSeq, h.ring.nextSeq]
    exact ⟨h.ring.evict, h.pushes, h.queue, h.replayed, h.returned, h.increasing,
      h.lastSeq.imp_right fun hl => hnext ▸ hl, h.fresh, h.subscribed⟩
  case subscribe =>
    rw [Feed.step]
    split
    case isFalse => exact h
    case isTrue hn =>
      have hr := h.subscribed hn
      refine ⟨h.ring, h.pushes, h.queue, h.replayed, h.returned, h.increasing, ?_, h.fresh, nofun⟩
      have hnext := h.ring.nextSeq
      rw [(h.fresh hr).right.right.right]
      cases s.cursor
      case none   => exact .inl <| Nat.zero_le _
      case some c => exact .inl <| Nat.le_refl _
  case unsubscribe =>
    refine ⟨h.ring, h.pushes, h.queue, h.replayed, h.returned, h.increasing, h.lastSeq, h.fresh, fun hn => ?_⟩
    exact h.subscribed <| Option.map_eq_none_iff.mp hn
  case register =>
    rw [Feed.step]
    split
    case isTrue     => exact h
    case isFalse hn =>
      exact ⟨h.ring, h.pushes, h.queue, h.replayed, h.returned, h.increasing, h.lastSeq, nofun,
        fun h => absurd h hn⟩
  case deliver =>
    rw [Feed.step]
    split
    case h_1 => exact h
    case h_2 e pushes hp =>
      have hs : Sound { s with pushes } := ⟨h.ring, fun x hx => h.pushes x <| hp ▸ List.mem_cons_of_mem _ hx,
        h.queue, h.replayed, h.returned, h.increasing, h.lastSeq, h.fresh, h.subscribed⟩
      exact hs.push <| h.pushes e <| hp ▸ List.mem_cons_self
  case lose i =>
    exact ⟨h.ring, fun x hx => h.pushes x <| List.mem_of_mem_eraseIdx hx, h.queue, h.replayed, h.returned,
      h.increasing, h.lastSeq, h.fresh, h.subscribed⟩
  case next =>
    rw [Feed.step, Feed.next]
    split
    case isFalse => exact h
    case isTrue hr =>
      split
      case isTrue  => exact h
      case isFalse => exact h.loop (Bool.and_eq_true_iff.mp hr).left
  case timeout =>
    rw [Feed.step]
    split
    case isFalse => exact h
    case isTrue hw =>
      exact h.rephase (h.registered fun hi => by simp [hi, Phase.isWaiting] at hw) nofun
  case replay =>
    rw [Feed.step]
    split
    case isFalse => exact h
    case isTrue hw =>
      refine h.rephase (h.registered fun hi => by simp [hi, Phase.isReplaying] at hw) fun es hes e he => ?_
      exact h.ring.mem_readReplay (Phase.replayed.inj hes) he
  case answer =>
    rw [Feed.step]
    split
    case h_2 => exact h
    case h_1 events hp =>
      refine h.answered (h.registered fun hi => by simp [hi] at hp) fun es hes => ?_
      exact h.replayed es <| hp.trans <| congrArg _ hes
  case fail =>
    rw [Feed.step]
    split
    case h_3    => exact h
    case h_1 hp => exact h.answered (h.registered fun hi => by simp [hi] at hp) nofun
    case h_2 hp => exact h.answered (h.registered fun hi => by simp [hi] at hp) nofun
  case close =>
    refine ⟨h.ring, h.pushes, h.queue, fun es hes => ?_, h.returned, h.increasing, h.lastSeq, fun hf => ?_,
      h.subscribed⟩
    · dsimp only [Feed.step, Feed.close] at hes
      split at hes
      · cases hes
      · exact h.replayed es hes
    · have ⟨hq, hp, hrest⟩ := h.fresh hf
      refine ⟨hq, ?_, hrest⟩
      simp [Feed.step, Feed.close, hp]

theorem sound_init (cursor : Option Nat) : ({ cursor } : Feed P).Sound where
  ring       := ⟨rfl, nofun, rfl, Nat.le_refl _⟩
  pushes     := nofun
  queue      := nofun
  replayed   := nofun
  returned   := nofun
  increasing := .nil
  lastSeq    := .inl <| Nat.le_refl _
  fresh _    := ⟨rfl, rfl, rfl, rfl⟩
  subscribed := fun _ => rfl

theorem gapless_init (cursor : Option Nat) : ({ cursor } : Feed P).Gapless :=
  ⟨trivial, nofun, nofun⟩

theorem Gapless.answered {events : Option (List (SdkEventEnvelope P))} (hs : s.Sound) (h : s.Gapless)
    (hr : s.registered) (hp : s.phase = .replayed events ∨ events = none) : (s.answered events).Gapless := by
  have hq : Flows (max s.start s.lastSeq) (events.getD []) := by
    cases events
    case none    => trivial
    case some es => exact h.replayed es <| hp.resolve_right nofun
  have hmem : ∀ e ∈ events.getD [], e ∈ s.emitted := by
    cases events
    case none    => nofun
    case some es => exact hs.replayed es <| hp.resolve_right nofun
  have hqueue : Sound { s with queue := enqueue s.lastSeq s.queue (events.getD []) } :=
    hs.requeue hr fun e he => (mem_enqueue he).elim (hs.queue e) (hmem e)
  refine Gapless.loop hqueue ⟨?_, h.replayed, h.seen⟩
  exact flows_enqueue (Nat.le_max_right ..) le_reach h.queue hq

-- The event before a push that joins the queue is in reach.
theorem seq_le_reach_succ (hs : s.Sound) (he : e ∈ s.emitted)
    (hj : ∀ x ∈ s.emitted, s.start < x.seq → x.seq < e.seq → x.seq ≤ s.lastSeq ∨ x ∈ s.queue) :
    e.seq ≤ reach (max s.start s.lastSeq) s.queue + 1 := by
  by_contra hgap
  have ⟨i, hi⟩ := List.mem_iff_getElem?.mp he
  have hseq := hs.ring.numbers i e hi
  have hb : max s.start s.lastSeq ≤ reach (max s.start s.lastSeq) s.queue := le_reach
  have hlt := (List.getElem?_eq_some_iff.mp hi).fst
  have hx := List.getElem?_eq_getElem (show i - 1 < s.emitted.length by omega)
  have hxseq := hs.ring.numbers _ _ hx
  rcases hj _ (List.mem_of_getElem? hx) (by omega) (by omega) with hle | hmem
  · omega
  · have hle : _ ≤ reach (max s.start s.lastSeq) s.queue := seq_le_reach hmem
    omega

-- A push that joins the queue leaves no gap.
theorem Gapless.push (hs : s.Sound) (h : s.Gapless) (he : e ∈ s.emitted)
    (hj : s.registered → s.closed = false → s.lastSeq < e.seq →
      (s.queue.length < sdkEventPushQueue ∨ ∀ x ∈ s.queue.head?, x.seq ≤ max s.start s.lastSeq) ∧
        ∀ x ∈ s.emitted, s.start < x.seq → x.seq < e.seq → x.seq ≤ s.lastSeq ∨ x ∈ s.queue) :
    (s.handleEventPush e).Gapless := by
  rcases push_cases s e with ⟨heq, _⟩ | ⟨⟨hr, hc, hlt⟩, q, hq, hor⟩
  · rwa [heq]
  · have ⟨hroom, hjoin⟩ := hj hr hc hlt
    have hnext := seq_le_reach_succ hs he hjoin
    have hflows : Flows (max s.start s.lastSeq) q := by
      rw [hq]
      split
      case isFalse    => exact flows_concat.mpr ⟨h.queue, hnext⟩
      case isTrue hle =>
        have hold := hroom.resolve_left <| Nat.not_lt.mpr hle
        have hflows := h.queue
        cases hcons : s.queue
        case nil => simp [hcons, sdkEventPushQueue] at hle
        case cons x rest =>
          have hx := hold x <| by simp [hcons]
          rw [hcons] at hflows hnext
          rw [reach_cons_old hx] at hnext
          exact flows_concat.mpr ⟨(flows_cons_old hx).mp hflows, hnext⟩
    have hqueue : Sound { s with queue := q } := by
      refine hs.requeue hr fun x hx => ?_
      rw [hq] at hx
      rcases List.mem_append.mp hx with hx | hx
      · split at hx
        · exact hs.queue x <| List.mem_of_mem_tail hx
        · exact hs.queue x hx
      · rwa [List.mem_singleton.mp hx]
    have hg : Gapless { s with queue := q } := ⟨hflows, h.replayed, h.seen⟩
    rcases hor with heq | heq
    · rwa [heq]
    · rw [heq]
      exact hg.loop hqueue

theorem Gapless.step (hs : s.Sound) (h : s.Gapless) (hh : s.Holds ev) (hj : s.Joins ev) :
    (s.step ev).Gapless := by
  cases ev
  case emit payload =>
    refine ⟨h.queue, h.replayed, fun e he hstart hle => ?_⟩
    rcases List.mem_append.mp he with he | he
    · exact h.seen e he hstart hle
    · have hseq : e.seq = s.events.nextSeq := by rw [List.mem_singleton.mp he]
      dsimp only [Feed.step] at hstart hle
      rcases hs.lastSeq with hl | hl <;> omega
  case evict => exact ⟨h.queue, h.replayed, h.seen⟩
  case subscribe =>
    rw [Feed.step]
    split
    case isFalse => exact h
    case isTrue hn =>
      have ⟨hq, hp, _, hl⟩ := hs.fresh <| hs.subscribed hn
      refine ⟨?_, fun es hes => ?_, fun e he hstart hle => ?_⟩
      · dsimp only
        rw [hq]
        trivial
      · cases hp.symm.trans hes
      · dsimp only at hstart hle
        rw [hl] at hle
        cases hc : s.cursor
        case none =>
          have ⟨i, hi⟩ := List.mem_iff_getElem?.mp he
          have hseq := hs.ring.numbers i e hi
          rw [hc, Option.getD_none] at hle
          omega
        case some c =>
          rw [hc, Option.getD_some] at hle hstart
          omega
  case unsubscribe => exact ⟨h.queue, h.replayed, h.seen⟩
  case register =>
    rw [Feed.step]
    split
    · exact h
    · exact ⟨h.queue, h.replayed, h.seen⟩
  case deliver =>
    rw [Feed.step]
    split
    case h_1 => exact h
    case h_2 e pushes hp =>
      have hs' : Sound { s with pushes } := ⟨hs.ring, fun x hx => hs.pushes x <| hp ▸ List.mem_cons_of_mem _ hx,
        hs.queue, hs.replayed, hs.returned, hs.increasing, hs.lastSeq, hs.fresh, hs.subscribed⟩
      have hg : Gapless { s with pushes } := ⟨h.queue, h.replayed, h.seen⟩
      exact hg.push hs' (hs.pushes e <| hp ▸ List.mem_cons_self) <| hj e <| by simp [hp]
  case lose => exact ⟨h.queue, h.replayed, h.seen⟩
  case next =>
    rw [Feed.step, Feed.next]
    split
    · split
      · exact h
      · exact h.loop hs
    · exact h
  case timeout =>
    rw [Feed.step]
    split
    · exact ⟨h.queue, nofun, h.seen⟩
    · exact h
  case replay =>
    rw [Feed.step]
    split
    case isFalse   => exact h
    case isTrue hw =>
      refine ⟨h.queue, fun es hes => ?_, h.seen⟩
      refine hs.ring.readReplay (Phase.replayed.inj hes) (hh hw) fun c hc => ?_
      unfold replayCursor at hc
      split at hc
      · cases hc
        exact Nat.le_max_right ..
      · cases hc
  case answer =>
    rw [Feed.step]
    split
    case h_2           => exact h
    case h_1 events hp => exact h.answered hs (hs.registered fun hi => by simp [hi] at hp) (.inl hp)
  case fail =>
    rw [Feed.step]
    split
    case h_3    => exact h
    case h_1 hp => exact h.answered hs (hs.registered fun hi => by simp [hi] at hp) (.inr rfl)
    case h_2 hp => exact h.answered hs (hs.registered fun hi => by simp [hi] at hp) (.inr rfl)
  case close =>
    refine ⟨h.queue, fun es hes => ?_, h.seen⟩
    dsimp only [Feed.step, Feed.close] at hes
    split at hes
    · cases hes
    · exact h.replayed es hes

def Increasing (s : Feed P) : Prop :=
  s.returned.Pairwise (·.seq < ·.seq)

-- No event after the subscription, or after the cursor, has been skipped.
def Whole (s : Feed P) : Prop :=
  ∀ r ∈ s.returned, ∀ e ∈ s.emitted, s.start < e.seq → e.seq ≤ r.seq → e ∈ s.returned

-- The numbers of what the consumer gets increase in every run, and nothing is skipped in a run whose
-- replays find what is needed and whose pushes join the queue.
theorem delivers_in_order (cursor : Option Nat) (evs : List (Event P)) :
    Runs.Throughout step Increasing { cursor } evs ∧
      (Runs.Meets step Holds { cursor } evs → Runs.Meets step Joins { cursor } evs →
        Runs.Throughout step Whole { cursor } evs) := by
  constructor
  · have hsound : Runs.Throughout step Sound ({ cursor } : Feed P) evs :=
      Runs.throughout_of_invariant (fun _ _ h => h.step) (sound_init cursor)
    exact hsound.mono fun _ h => h.increasing
  · intro hh hj
    have hboth : Runs.Throughout step (fun s => s.Sound ∧ s.Gapless) ({ cursor } : Feed P) evs := by
      refine Runs.throughout_of_meets ?_ ⟨sound_init cursor, gapless_init cursor⟩ (hh.and hj)
      intro s e h hok
      exact ⟨h.left.step, h.right.step h.left hok.left hok.right⟩
    refine hboth.mono fun s h r hr e he hstart hle => ?_
    exact h.right.seen e he hstart <| Nat.le_trans hle (h.left.returned r hr).right

section Sample

private def listening : List (Event Nat) := [.subscribe, .register, .next]

private def heard : List (Event Nat) := listening ++ [.emit 7, .deliver]

theorem delivers_in_order_heard : Runs.Meets step Holds ({ cursor := none } : Feed Nat) heard ∧
    Runs.Meets step Joins ({ cursor := none } : Feed Nat) heard ∧
      Runs.Throughout step Whole ({ cursor := none } : Feed Nat) heard := by
  have hh : Runs.Meets step Holds ({ cursor := none } : Feed Nat) heard :=
    ⟨trivial, trivial, trivial, trivial, trivial, trivial⟩
  have hj : Runs.Meets step Joins ({ cursor := none } : Feed Nat) heard := by
    refine ⟨trivial, trivial, trivial, trivial, fun e he _ _ _ => ⟨.inl (by decide), ?_⟩, trivial⟩
    cases he
    decide
  exact ⟨hh, hj, (delivers_in_order none heard).right hh hj⟩

-- The push of the first event is lost, and that of the second is taken.
private def skipping : List (Event Nat) := listening ++ [.emit 7, .lose 0, .emit 8, .deliver]

theorem lost_push_skips : ¬∀ (cursor : Option Nat) (evs : List (Event Nat)),
    Runs.Meets step Holds { cursor } evs → Runs.Throughout step Whole { cursor } evs := by
  intro h
  have hwhole := (h none skipping ⟨trivial, trivial, trivial, trivial, trivial, trivial, trivial, trivial⟩).last
  have hnot : ¬Whole (skipping.foldl step ({ cursor := none } : Feed Nat)) := by
    unfold Whole
    decide
  exact hnot hwhole

private def late : List (Event Nat) := [.emit 7, .emit 8] ++ listening ++ [.emit 9, .deliver]

-- Without any loss, the first push keeps out what was emitted between the cursor and the subscription.
example : (late.foldl step ({ cursor := some 1 } : Feed Nat)).returned = [{ seq := 3, payload := 9 }] := by
  decide

end Sample

end Feed

end LiveEvents
