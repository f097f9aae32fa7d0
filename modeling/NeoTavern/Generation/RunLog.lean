import NeoTavern.Kernel.Generation

open Wire Kernel

-- A run is purged from a discard on.
def Kernel.Act.purges (purged : Bool) : Act → Bool
  | .discard => true
  | _        => purged

-- What a generation run is for: a status that moves towards an end and a log of events that only
-- grows on the way. The rest of its row is bookkeeping.
structure RunLog where
  status            : GenerationStatus
  cancelRequested   : Bool
  revision          : Int
  lastEventSequence : Int
  partialLength     : Int
  entries           : List (Int × GenerationEvent)

namespace RunLog

def touch (l : RunLog) : RunLog :=
  { l with revision := l.revision + 1 }

def append (l : RunLog) (e : GenerationEvent) : RunLog := { l with
  lastEventSequence := l.lastEventSequence + 1
  entries           := l.entries ++ [(l.lastEventSequence + 1, e)]
}

def appendDelta (l : RunLog) (text : String) : RunLog :=
  { l.append (.delta text) with partialLength := l.partialLength + text.utf8ByteSize }

def appendCheckpoint (l : RunLog) : RunLog :=
  l.append <| .checkpoint (l.lastEventSequence + 1) l.partialLength

-- The status of a run whose log ends with the event.
def terminalStatus : GenerationEvent → Option GenerationStatus
  | .completed _ => some .completed
  | .failed _    => some .failed
  | .cancelled   => some .cancelled
  | _            => none

def start : RunLog where
  status            := .queued
  cancelRequested   := false
  revision          := 0
  lastEventSequence := -1
  partialLength     := 0
  entries           := []

inductive Step : Act → RunLog → RunLog → Prop
  | cancel (hs : isCancellable l.status) :
    Step .cancel l { l.touch with status := .cancelling, cancelRequested := true }
  | advance (hs : ¬isTerminal l.status) (ht : ¬isTerminal s) (hc : s ≠ .cancelling) :
    Step (.advance s) l { l.touch with status := s }
  | delta (hs : isCancellable l.status) (hc : l.cancelRequested = false) :
    Step (.delta text) l (l.touch.appendDelta text)
  | deltaCheckpoint (hs : isCancellable l.status) (hc : l.cancelRequested = false) :
    Step (.delta text) l (l.touch.appendDelta text).appendCheckpoint
  | finish (hs : ¬isTerminal l.status) (he : terminalStatus e = some s) :
    Step (.finish s) l { l.touch.append e with status := s }
  | release (hs : ¬isTerminal l.status) :
    Step .release l l.touch
  | keep (hs : isRecoverable l.status) :
    Step .keep l l.touch
  | discard (hs : isRecoverable l.status) :
    Step .discard l { l.touch with partialLength := 0, entries := [] }
  | interrupt (hs : ¬isTerminal l.status) :
    Step .interrupt l { l.touch with status := .interrupted }

theorem Step.revision (h : Step a l l') : l'.revision = l.revision + 1 := by
  cases h <;> rfl

theorem Step.cancel_status (h : Step .cancel l l') :
    l'.status = .cancelling ∧ l'.cancelRequested := by
  cases h
  case cancel => exact ⟨rfl, rfl⟩

theorem Step.advance_status (h : Step (.advance s) l l') :
    l'.status = s ∧ ¬isTerminal s ∧ l'.cancelRequested = l.cancelRequested := by
  cases h
  case advance ht _ _ => exact ⟨rfl, ht, rfl⟩

theorem Step.delta_status (h : Step (.delta text) l l') :
    l'.status = l.status ∧ l'.cancelRequested = l.cancelRequested := by
  cases h <;> exact ⟨rfl, rfl⟩

theorem isTerminal_of_isRecoverable (h : isRecoverable s) : isTerminal s := by
  cases s <;> simp_all [isRecoverable, isTerminal]

theorem not_isTerminal_of_isCancellable (h : isCancellable s) : ¬isTerminal s := by
  cases s <;> simp_all [isCancellable, isTerminal]

theorem terminalStatus_isTerminal (h : terminalStatus e = some s) :
    isTerminal s ∧ s ≠ .interrupted := by
  cases e <;> simp_all [terminalStatus] <;> subst h <;> decide

-- The length that the run row accounts for: bytes of the committed delta texts.
def textLength : List (Int × GenerationEvent) → Int
  | []                     => 0
  | (_, .delta text) :: es => text.utf8ByteSize + textLength es
  | _ :: es                => textLength es

@[simp]
theorem textLength_append (es fs : List (Int × GenerationEvent)) :
    textLength (es ++ fs) = textLength es + textLength fs := by
  induction es
  case nil => simp [textLength]
  case cons e es ih =>
    rcases e with ⟨s, e⟩
    cases e <;> simp [textLength, ih, add_assoc]

-- An element of a list with one more at the end is that one or stands among the others.
theorem split_snoc {xs es fs : List α} (h : xs ++ [x] = es ++ y :: fs) :
    (es = xs ∧ y = x ∧ fs = []) ∨ ∃ fs', xs = es ++ y :: fs' := by
  rcases List.eq_nil_or_concat fs with rfl | ⟨fs, f, rfl⟩
  case inl =>
    have ⟨hl, hx⟩ := List.append_inj' h rfl
    exact .inl ⟨hl.symm, by simp_all, rfl⟩
  case inr =>
    rw [List.concat_eq_append, ← List.cons_append, ← List.append_assoc] at h
    exact .inr ⟨fs, List.append_inj' h rfl |>.left⟩

-- The log of a run that nobody discarded.
structure Sound (l : RunLog) : Prop where
  last          : l.lastEventSequence = l.entries.length - 1
  sequences     : l.entries.map (·.fst) = (List.range l.entries.length).map Int.ofNat
  partialLength : l.partialLength = textLength l.entries
  checkpoint    : ∀ es fs s c n, l.entries = es ++ (s, .checkpoint c n) :: fs →
    c = s ∧ n = textLength es
  ends          : ∀ es fs s e, l.entries = es ++ (s, e) :: fs → (terminalStatus e).isSome → fs = []
  terminal      : ∀ s, (∃ e ∈ l.entries, terminalStatus e.snd = some s) ↔
    l.status = s ∧ isTerminal s ∧ s ≠ .interrupted
  cancelling    : l.status = .cancelling → l.cancelRequested

-- The log of a run after a discard.
structure Purged (l : RunLog) : Prop where
  entries       : l.entries = []
  partialLength : l.partialLength = 0
  recoverable   : isRecoverable l.status

def Inv (purged : Bool) (l : RunLog) : Prop :=
  if purged then l.Purged else l.Sound

namespace Sound

variable {l : RunLog}

theorem no_terminal (h : l.Sound) (hs : ¬isTerminal l.status) (he : e ∈ l.entries) :
    terminalStatus e.snd = none := by
  by_contra hn
  have ⟨s, hs'⟩ := Option.ne_none_iff_exists'.mp hn
  have ⟨rfl, ht, _⟩ := h.terminal s |>.mp ⟨e, he, hs'⟩
  exact hs ht

theorem touch (h : l.Sound) : l.touch.Sound where
  last          := h.last
  sequences     := h.sequences
  partialLength := h.partialLength
  checkpoint    := h.checkpoint
  ends          := h.ends
  terminal      := h.terminal
  cancelling    := h.cancelling

-- A change of status that no event stands for.
theorem set_status {c : Bool} (h : l.Sound) (hs : ¬isTerminal l.status)
    (ht : isTerminal s → s = .interrupted) (hc : s = .cancelling → c) :
    Sound { l with status := s, cancelRequested := c } where
  last          := h.last
  sequences     := h.sequences
  partialLength := h.partialLength
  checkpoint    := h.checkpoint
  ends          := h.ends
  terminal t    := by
    constructor
    case mp =>
      intro ⟨e, he, ht'⟩
      simp [h.no_terminal hs he] at ht'
    case mpr =>
      intro ⟨rfl, ht', hi⟩
      exact absurd (ht ht') hi
  cancelling    := hc

theorem append (h : l.Sound) (hs : ¬isTerminal l.status)
    (hc : ∀ c n, e = .checkpoint c n → c = l.lastEventSequence + 1 ∧ n = l.partialLength)
    (ht : terminalStatus e = if isTerminal s then some s else none) (hi : s ≠ .interrupted)
    (hq : s = .cancelling → l.cancelRequested) :
    Sound { l.append e with status := s, partialLength := l.partialLength + textLength [(0, e)] } where
  last := by
    simp [RunLog.append, h.last]
  sequences := by
    simp [RunLog.append, h.sequences, h.last, List.range_succ]
  partialLength := by
    cases e <;> simp [RunLog.append, h.partialLength, textLength]
  checkpoint es fs q c n he := by
    rcases split_snoc he with ⟨rfl, he, -⟩ | ⟨fs', he⟩
    case inl =>
      have ⟨h₁, h₂⟩ := hc c n (Prod.mk.inj he).right.symm
      exact ⟨h₁.trans (Prod.mk.inj he).left.symm, h₂.trans h.partialLength⟩
    case inr => exact h.checkpoint es fs' q c n he
  ends es fs q f he hf := by
    rcases split_snoc he with ⟨-, -, rfl⟩ | ⟨fs', he⟩
    case inl => rfl
    case inr =>
      have := h.no_terminal hs (e := (q, f)) <| he ▸ by simp
      simp_all
  terminal t := by
    have hn : ¬∃ e ∈ l.entries, terminalStatus e.snd = some t :=
      fun ⟨_, he, ht⟩ => by simp [h.no_terminal hs he] at ht
    simp only [RunLog.append, List.mem_append, List.mem_singleton, or_and_right, exists_or, hn,
      exists_eq_left, ht, false_or]
    by_cases hs' : isTerminal s
    case pos => grind
    case neg =>
      simp only [hs', Bool.false_eq_true, ↓reduceIte, reduceCtorEq, false_iff, not_and]
      exact fun he ht' => absurd (he ▸ ht') hs'
  cancelling := hq

theorem appendDelta (h : l.Sound) (hs : ¬isTerminal l.status) : (l.appendDelta text).Sound := by
  have hi : l.status ≠ .interrupted := fun h => hs <| h ▸ rfl
  have := h.append (e := .delta text) hs (by simp) (by simp [terminalStatus, hs]) hi h.cancelling
  simpa [textLength, RunLog.append, RunLog.appendDelta] using this

theorem appendCheckpoint (h : l.Sound) (hs : ¬isTerminal l.status) : l.appendCheckpoint.Sound := by
  have hi : l.status ≠ .interrupted := fun h => hs <| h ▸ rfl
  have := h.append (e := .checkpoint (l.lastEventSequence + 1) l.partialLength) hs
    (by simp) (by simp [terminalStatus, hs]) hi h.cancelling
  simpa [textLength, RunLog.append, RunLog.appendCheckpoint] using this

end Sound

theorem Step.preserves_sound (h : Step a l l') (hl : l.Sound) (ha : a ≠ .discard) : l'.Sound := by
  cases h
  case cancel hs =>
    exact hl.touch.set_status (not_isTerminal_of_isCancellable hs) nofun fun _ => rfl
  case advance ht hc hs =>
    exact hl.touch.set_status hs (absurd · ht) (absurd · hc)
  case delta text hs hc =>
    exact hl.touch.appendDelta <| not_isTerminal_of_isCancellable hs
  case deltaCheckpoint text hs hc =>
    have ht := not_isTerminal_of_isCancellable hs
    exact hl.touch.appendDelta ht |>.appendCheckpoint ht
  case finish e s he hs =>
    have ⟨ht, hi⟩ := terminalStatus_isTerminal he
    have hc : ∀ c n, e ≠ .checkpoint c n := by rintro _ _ rfl; simp [terminalStatus] at he
    have hd : textLength [(0, e)] = 0 := by cases e <;> simp_all [terminalStatus, textLength]
    have h := hl.touch.append (e := e) (s := s) hs (fun c n h => absurd h <| hc c n)
      (by simp [he, ht]) hi fun h => by simp [h, isTerminal] at ht
    simpa [hd, RunLog.append] using h
  case release   => exact hl.touch
  case keep      => exact hl.touch
  case discard   => contradiction
  case interrupt hs => exact hl.touch.set_status hs (fun _ => rfl) nofun

theorem Step.purges (h : Step .discard l l') : l'.Purged := by
  cases h
  case discard hs => exact ⟨rfl, rfl, hs⟩

theorem Step.preserves_purged (h : Step a l l') (hl : l.Purged) : l'.Purged := by
  have ht := isTerminal_of_isRecoverable hl.recoverable
  cases h
  case cancel hs          => exact absurd ht <| not_isTerminal_of_isCancellable hs
  case advance hs         => exact absurd ht hs
  case delta hs _         => exact absurd ht <| not_isTerminal_of_isCancellable hs
  case deltaCheckpoint hs _ => exact absurd ht <| not_isTerminal_of_isCancellable hs
  case finish hs          => exact absurd ht hs
  case release hs         => exact absurd ht hs
  case keep               => exact ⟨hl.entries, hl.partialLength, hl.recoverable⟩
  case discard            => exact ⟨rfl, rfl, hl.recoverable⟩
  case interrupt hs       => exact absurd ht hs

theorem Step.preserves (h : Step a l l') (hl : l.Inv purged) : l'.Inv (Act.purges purged a) := by
  cases a
  case discard => exact h.purges
  all_goals
    cases purged
    case false => exact h.preserves_sound hl (by simp)
    case true  => exact h.preserves_purged hl

theorem start_sound : start.Sound where
  last          := rfl
  sequences     := rfl
  partialLength := rfl
  checkpoint    := by simp [start]
  ends          := by simp [start]
  terminal s    := by cases s <;> simp [start, isTerminal]
  cancelling    := nofun

end RunLog
