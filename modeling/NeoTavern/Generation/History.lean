import NeoTavern.Generation.Session

open Wire Storage Kernel
open Journal (Grows)

-- What the kernels that had the database one after the other committed to it. Each may die at any
-- point, and finds whatever commands, clock, identifiers, failures and providers there are.
inductive Reachable : Journal Label Db → Prop
  | fresh (hr : d.runs = .empty) (he : d.events = .empty) : Reachable ⟨d, []⟩
  | crash (h : Reachable j) (n : Nat) : Reachable (j.crash n)
  | session (h : Reachable w.journal) (leaseOwner : String) (registry : ProviderRegistry)
    (turns : Nat) : Reachable (writerMain leaseOwner registry turns w).snd.journal

theorem Reachable.grows (h : Reachable j) : ∃ d : Db,
    d.runs = .empty ∧ d.events = .empty ∧ Grows (KernelStep False) ⟨d, []⟩ j ∧ j.state.Consistent := by
  have hc {d : Db} (hr : d.runs = .empty) (he : d.events = .empty) : d.Consistent :=
    ⟨fun e hm => by simp [he, Table.mem_def, Table.empty] at hm,
      fun e hm => by simp [he, Table.mem_def, Table.empty] at hm,
      fun r hm => by simp [hr, Table.mem_def, Table.empty] at hm⟩
  induction h
  case fresh d hr he => exact ⟨d, hr, he, .refl, hc hr he⟩
  case crash n ih =>
    obtain ⟨d, hr, he, hg, _⟩ := ih
    have hg := hg.crash n
    exact ⟨d, hr, he, hg, hg.consistent (hc hr he)⟩
  case session w _ leaseOwner registry turns ih =>
    obtain ⟨d, hr, he, hg, hw⟩ := ih
    have hm : Moves (KernelStep False) (writerMain leaseOwner registry turns) (fun _ _ => True) w :=
      Moves.writerMain hw False.elim False.elim
    exact ⟨d, hr, he, hg.trans hm.later.grows, hm.later.grows.consistent hw⟩

-- The run was discarded after it started.
def discarded (runId : String) : List (Commit Label Db) → Bool
  | []      => false
  | c :: cs =>
    match c.label with
    | .start i   => i ≠ runId && discarded runId cs
    | .run i act => if i = runId then act.purges (discarded runId cs) else discarded runId cs
    | _          => discarded runId cs

theorem discarded_of_ne (h : c.label.runId? ≠ some runId) :
    discarded runId (c :: cs) = discarded runId cs := by
  rcases c with ⟨l, d⟩
  cases l <;> simp_all [discarded, Label.runId?]

section Invariant

variable {d d' : Db} {l : Label}

-- The rows of a run agree with its events.
def LogSound (j : Journal Label Db) : Prop :=
  ∀ i r, j.state.runs.get? i = some r → (j.state.runLog r).Inv (discarded i j.commits)

theorem LogSound.push (h : LogSound j) (hl : Legal j.state l d) : LogSound (j.push l d) := by
  intro i r' hr'
  obtain rfl := Table.get?_key_eq hr'
  simp only [Journal.push_state]
  cases hl.effect.origin hr'
  case start he _ hs =>
    subst he
    rw [hs]
    simpa [RunLog.Inv, Journal.push, discarded] using RunLog.start_sound
  case same he hr hs =>
    rw [hs, Journal.push, discarded_of_ne he]
    exact h _ r' hr
  case step act r hs he =>
    have hi := h r.runId r hs.row
    have h' := hs.step.preserves hi
    rcases he with rfl | ⟨rfl, rfl⟩
    · simpa [Journal.push, discarded, hs.id] using h'
    · simpa [Journal.push, discarded, hs.id, Act.purges] using h'

theorem Reachable.logSound (h : Reachable j) : LogSound j := by
  have ⟨d, hr, _, hg, _⟩ := h.grows
  refine hg.preserves (I := LogSound) (fun _ _ _ h hs => h.push hs.legal) ?_
  intro i r h
  simp [Journal.state, hr] at h

end Invariant

section Log

-- The length that a committed event adds to its run.
def deltaLength (e : EventRow) : Int :=
  match e.payload with
  | .delta text => text.utf8ByteSize
  | _           => 0

def isTerminalEvent (t : EventType) : Bool :=
  t = .completed || t = .failed || t = .cancelled

-- What the row of a run and the events of the run say about each other.
structure Logged (r : RunRow) (es : List EventRow) : Prop where
  sequences     : es.map (·.sequence) = (List.range es.length).map Int.ofNat
  last          : r.lastEventSequence = es.length - 1
  types         : ∀ e ∈ es, e.type = e.payload.type
  partialLength : r.partialLength = (es.map deltaLength).sum
  checkpoint    : ∀ es₁ e es₂, es = es₁ ++ e :: es₂ → e.type = .checkpoint →
    e.payload = .checkpoint e.sequence (es₁.map deltaLength).sum
  ends          : ∀ es₁ e es₂, es = es₁ ++ e :: es₂ → isTerminalEvent e.type → es₂ = []
  completed     : (∃ e ∈ es, e.type = .completed) ↔ r.status = .completed
  failed        : (∃ e ∈ es, e.type = .failed) ↔ r.status = .failed
  cancelled     : (∃ e ∈ es, e.type = .cancelled) ↔ r.status = .cancelled

variable {r : RunRow} {es : List EventRow}

theorem textLength_entries :
    RunLog.textLength (es.map fun e => (e.sequence, e.payload)) = (es.map deltaLength).sum := by
  induction es
  case nil => rfl
  case cons e es ih =>
    rcases e with ⟨i, s, t, p, c⟩
    cases p <;> simp [RunLog.textLength, deltaLength, ih]

theorem terminalStatus_isSome (e : GenerationEvent) :
    (RunLog.terminalStatus e).isSome = isTerminalEvent e.type := by
  cases e <;> rfl

theorem RunLog.Sound.logged (h : (RunLog.of r es).Sound) (ht : ∀ e ∈ es, e.type = e.payload.type) :
    Logged r es := by
  have split {es₁ es₂ : List EventRow} {e} (he : es = es₁ ++ e :: es₂) : (RunLog.of r es).entries =
      es₁.map (fun e => (e.sequence, e.payload)) ++
      (e.sequence, e.payload) :: es₂.map (fun e => (e.sequence, e.payload)) := by
    simp [RunLog.of, he]
  have terminal {s t} (hs : isTerminal s ∧ s ≠ .interrupted)
      (he : ∀ e : GenerationEvent, terminalStatus e = some s ↔ e.type = t) :
      (∃ e ∈ es, e.type = t) ↔ r.status = s := by
    have h := h.terminal s
    simp only [RunLog.of, List.mem_map, exists_exists_and_eq_and, he, hs] at h
    refine .trans ?_ (h.trans <| by simp [hs])
    exact exists_congr fun e => and_congr_right fun hm => by rw [ht e hm]
  constructor
  case sequences     => simpa [RunLog.of, Function.comp_def] using h.sequences
  case last          => simpa [RunLog.of] using h.last
  case types         => exact ht
  case partialLength => exact h.partialLength.trans textLength_entries
  case checkpoint =>
    intro es₁ e es₂ he hc
    have hp := ht e (he ▸ by simp)
    cases hq : e.payload
    case checkpoint c n =>
      have ⟨h₁, h₂⟩ := h.checkpoint _ _ _ c n (hq ▸ split he)
      rw [h₁, h₂, textLength_entries]
    all_goals simp_all [GenerationEvent.type]
  case ends =>
    intro es₁ e es₂ he hc
    have := h.ends _ _ _ _ (split he) <| by rw [terminalStatus_isSome, ← ht e (he ▸ by simp), hc]
    simpa using this
  case completed => exact terminal (by decide) fun e => by cases e <;> simp [terminalStatus, GenerationEvent.type]
  case failed    => exact terminal (by decide) fun e => by cases e <;> simp [terminalStatus, GenerationEvent.type]
  case cancelled => exact terminal (by decide) fun e => by cases e <;> simp [terminalStatus, GenerationEvent.type]

end Log

theorem generation_log_invariant (h : Reachable j) :
    (∀ i r, j.state.runs.get? i = some r →
      (discarded i j.commits → j.state.eventsOf i = [] ∧ r.partialLength = 0) ∧
      (¬discarded i j.commits → Logged r (j.state.eventsOf i))) ∧
    (∀ cs c ds i r', j.commits = cs ++ c :: ds → c.state.runs.get? i = some r' →
      (c.label = .start i ∧ (Journal.state ⟨j.base, ds⟩).runs.get? i = none) ∨
      ∃ r, (Journal.state ⟨j.base, ds⟩).runs.get? i = some r ∧ (r' = r ∨ r.revision < r'.revision)) := by
  have ⟨d, _, _, hg, hc⟩ := h.grows
  constructor
  case left =>
    intro i r hr
    have hl := h.logSound i r hr
    obtain rfl := Table.get?_key_eq hr
    constructor
    case left =>
      intro hd
      rw [RunLog.Inv, if_pos hd] at hl
      exact ⟨by simpa [Db.runLog, RunLog.of] using hl.entries, hl.partialLength⟩
    case right =>
      intro hd
      rw [RunLog.Inv, if_neg hd] at hl
      exact hl.logged fun e he => hc.type e (Db.mem_eventsOf.mp he).left
  case right =>
    intro cs c ds i r' hj hr
    have hs := hg.step hj List.nil_suffix
    obtain rfl := Table.get?_key_eq hr
    cases hs.legal.effect.origin hr
    case start he hn _ => exact .inl ⟨he, hn⟩
    case same _ hr _   => exact .inr ⟨r', hr, .inl rfl⟩
    case step r hs _   => exact .inr ⟨r, hs.id ▸ hs.row, .inr hs.revision⟩

namespace Sample

def chatId : String := "01890000-0000-4000-8000-0000000000c1"

-- The identifier that the first run of a kernel gets.
def runId : String := Wire.newId ⟨0, 0, 0⟩

def db : Db := { Db.empty with
  chats := ⟨[⟨chatId, "chat", "character", "2025-01-01T00:00:00Z", "2025-01-01T00:00:00Z"⟩], by simp⟩
}

def env : Env where
  clock n := ⟨2025, 1, 1, 0, 0, ⟨n % 60, by omega⟩, 0⟩
  uuid n  := ⟨BitVec.ofNat 48 n, 0, 0⟩
  fault _ := none

def world (inbox : List (List Command)) : World where
  journal := ⟨db, []⟩
  env     := env
  inbox   := inbox

def start : Command :=
  .stream <| .start <| .object ⟨chatId, "Hello", none, none⟩

def cancel : Command :=
  .unary (.generationCancel <| .object ⟨runId⟩) false

-- A provider that emits the texts unless it is told to stop.
def emitting : List String → Attempt
  | []            => .done <| .ok ⟨0, 0⟩
  | text :: texts => .emit text fun
    | .continue => emitting texts
    | .stop     => .done <| .error ⟨.cancelled, "stopped", [], false⟩

def provider (texts : List String) : ProviderAdapter where
  id           := "fake"
  generate _ _ := emitting texts

theorem emitting_obedient (texts : List String) : (emitting texts).Obedient := by
  induction texts
  case nil          => trivial
  case cons text ih => exact ⟨⟨_, rfl, rfl⟩, ih⟩

theorem provider_obedient (texts : List String) : ProviderRegistry.Obedient [provider texts] := by
  simpa [ProviderRegistry.Obedient, provider] using fun _ => emitting_obedient texts

-- The cancel arrives while the provider emits.
def stopped : World :=
  (writerMain "owner" [provider ["Hello"]] 1 <| world [[start], [cancel]]).snd

theorem stopped_reachable : Reachable stopped.journal := by
  have hw : Reachable (world [[start], [cancel]]).journal := .fresh rfl rfl
  unfold stopped
  exact hw.session "owner" [provider ["Hello"]] 1

end Sample

open Sample in
theorem generation_log_invariant_stopped : ∃ r, stopped.journal.state.runs.get? runId = some r ∧
    Logged r (stopped.journal.state.eventsOf runId) := by
  have hr : (stopped.journal.state.runs.get? runId).isSome := by decide +kernel
  have hd : ¬discarded runId stopped.journal.commits := by decide +kernel
  have ⟨r, hr⟩ := Option.isSome_iff_exists.mp hr
  have h := (generation_log_invariant stopped_reachable).left runId r hr
  exact ⟨r, hr, h.right hd⟩
