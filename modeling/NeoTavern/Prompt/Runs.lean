import NeoTavern.Prompt.Protection

namespace Prompt

section Host

variable {input : PromptInput}

-- Whatever the host assembles is a message of its own.
theorem messages_host : ∀ m ∈ (assemblePromptMessages input).messages, HostMessage m := by
  intro m hm
  have h := messages_perm.mem_iff.mp hm
  rw [activeMessages_journal] at h
  have ⟨p, hp, hm⟩ := List.mem_flatMap.mp h
  split at hm
  · exact prepared_host hp hm
  · exact absurd hm List.not_mem_nil

end Host

section Stages

variable (input : PipelineInput)

def assembled : List PromptMessage :=
  (assemblePromptMessages input.toPromptInput).messages

-- What the hooks leave of a list, without a look at the signal.
def intercepted (host : List PromptMessage) : List PromptMessage :=
  (sortedInterceptors input).foldl (applyInterceptor input host) host

-- What a run goes through if no check stops it.
def stagesOf : Stages :=
  let initial := initialShift input (assembled input)
  let working := intercepted input initial.kept
  {
    assembly     := assemblePromptMessages input.toPromptInput
    initialShift := initial
    working
    finalShift   := shift input working
  }

-- The run without plugins.
def PipelineInput.bare : PipelineInput :=
  { input with contextStrategy := none, interceptors := [] }

end Stages

section Inversion

variable {input : PipelineInput} {host : List PromptMessage}

theorem ensureNotAborted_eq_ok : ensureNotAborted input n = .ok () ↔ input.aborted n = false := by
  cases h : input.aborted n <;> simp [ensureNotAborted, h]

theorem ensureFitsBudget_eq_ok : ensureFitsBudget input result = .ok () ↔ result.fitsBudget := by
  cases h : result.fitsBudget <;> simp [ensureFitsBudget, h]

theorem bind_eq_ok {x : Pipeline α} {f : α → Pipeline β} :
    (x >>= f) = .ok b ↔ ∃ a, x = .ok a ∧ f a = .ok b := by
  cases x <;> simp [bind, Except.bind]

-- The hooks are stopped by nothing but the signal.
theorem runInterceptors_eq_ok {is : List PipelineInterceptor} :
    runInterceptors input host is n working = .ok w ↔
      (∀ i < is.length, input.aborted (n + i) = false) ∧
        w = is.foldl (applyInterceptor input host) working := by
  induction is generalizing n working
  case nil =>
    rw [runInterceptors, Except.ok.injEq, eq_comm]
    simp
  case cons i is ih =>
    rw [runInterceptors, bind_eq_ok]
    constructor
    case mp =>
      intro ⟨_, ha, h⟩
      have ⟨hs, hw⟩ := ih.mp h
      refine ⟨fun j hj => ?_, hw⟩
      cases j
      case zero   => exact ensureNotAborted_eq_ok.mp ha
      case succ j =>
        have := hs j <| by simpa using hj
        rwa [Nat.add_right_comm, Nat.add_assoc] at this
    case mpr =>
      intro ⟨hs, hw⟩
      refine ⟨(), ensureNotAborted_eq_ok.mpr <| hs 0 <| by simp, ih.mpr ⟨fun j hj => ?_, hw⟩⟩
      rw [Nat.add_right_comm, Nat.add_assoc]
      exact hs (j + 1) <| by simpa using hj

example : (runInterceptors { history := [], countTokens := String.length } [] [] 0 []).toOption = some [] := by
  decide +kernel

theorem length_sortedInterceptors : (sortedInterceptors input).length = input.interceptors.length :=
  List.length_mergeSort _

-- A run returns exactly if no check stops it.
theorem runStages_eq_ok : runStages input = .ok s ↔
    0 < promptBudget input ∧ (∀ n ≤ input.interceptors.length + 1, input.aborted n = false) ∧
      (stagesOf input).initialShift.fitsBudget ∧ (stagesOf input).finalShift.fitsBudget ∧
        s = stagesOf input := by
  unfold runStages
  by_cases hb : promptBudget input ≤ 0
  case pos => simp [hb, Int.not_lt.mpr hb, bind, Except.bind]
  case neg =>
    simp only [hb, if_false]
    constructor
    case mp =>
      intro h
      have ⟨_, hn, h⟩ := bind_eq_ok.mp h
      have ⟨_, hi, h⟩ := bind_eq_ok.mp h
      have ⟨w, hr, h⟩ := bind_eq_ok.mp h
      have ⟨_, hl, h⟩ := bind_eq_ok.mp h
      have ⟨_, hf, h⟩ := bind_eq_ok.mp h
      have ⟨ha, hw⟩ := runInterceptors_eq_ok.mp hr
      subst hw
      cases h
      refine ⟨Int.not_le.mp hb, fun n hle => ?_, ensureFitsBudget_eq_ok.mp hi,
        ensureFitsBudget_eq_ok.mp hf, rfl⟩
      rw [length_sortedInterceptors] at ha
      rcases Nat.eq_zero_or_pos n with rfl | hpos
      · exact ensureNotAborted_eq_ok.mp hn
      · rcases Nat.lt_or_ge n (input.interceptors.length + 1) with hlt | hge
        · have := ha (n - 1) (by omega)
          rwa [Nat.add_sub_cancel' hpos] at this
        · obtain rfl := Nat.le_antisymm hle hge
          exact ensureNotAborted_eq_ok.mp hl
    case mpr =>
      intro ⟨_, ha, hi, hf, hs⟩
      refine bind_eq_ok.mpr ⟨(), ensureNotAborted_eq_ok.mpr <| ha 0 (Nat.zero_le _), ?_⟩
      refine bind_eq_ok.mpr ⟨(), ensureFitsBudget_eq_ok.mpr hi, ?_⟩
      refine bind_eq_ok.mpr ⟨_, runInterceptors_eq_ok.mpr ⟨fun n hn => ?_, rfl⟩, ?_⟩
      · rw [length_sortedInterceptors] at hn
        exact ha _ (by omega)
      · refine bind_eq_ok.mpr ⟨(), ensureNotAborted_eq_ok.mpr <| ha _ le_rfl, ?_⟩
        exact bind_eq_ok.mpr ⟨(), ensureFitsBudget_eq_ok.mpr hf, hs ▸ rfl⟩

theorem runPromptPipeline_eq_ok : runPromptPipeline input = .ok result ↔
    ∃ s, runStages input = .ok s ∧ result = pipelineResult input s := by
  rw [runPromptPipeline, bind_eq_ok]
  simp [pure, Except.pure, eq_comm]

end Inversion

section Soundness

variable {input : PipelineInput}

theorem stagesOf_protects : Protects (assembled input) (stagesOf input).finalShift.kept := by
  have hi : Protects (assembled input) (initialShift input (assembled input)).kept :=
    initialShift_protects messages_host
  exact shift_protects <| foldl_protects messages_host hi hi

-- A run that returns reports what its messages cost, stays within the budget, and has lost no
-- protected message.
theorem runPromptPipeline_sound (h : runPromptPipeline input = .ok result) :
    ∃ s, runStages input = .ok s ∧ result = pipelineResult input s ∧
      result.tokenBudget.promptTokens =
        (result.messages.map fun m => input.countTokens m.content + perMessageOverhead).sum ∧
      result.tokenBudget.promptTokens ≤ contextLimit input - reserve input ∧
      ∀ m ∈ (assemblePromptMessages input.toPromptInput).messages, isHostProtected m →
        ∃ k ∈ s.finalShift.kept, k.id = m.id ∧ isHostProtected k := by
  have ⟨s, hs, hr⟩ := runPromptPipeline_eq_ok.mp h
  have ⟨_, _, _, hfits, he⟩ := runStages_eq_ok.mp hs
  subst hr he
  refine ⟨_, hs, rfl, ?_, ?_, fun m hm hp => ?_⟩
  case refine_1 =>
    simp only [pipelineResult, List.map_map]
    rfl
  case refine_2 =>
    exact of_decide_eq_true hfits
  case refine_3 =>
    have ⟨⟨k, hk, hi⟩, hall⟩ := stagesOf_protects m hm hp
    exact ⟨k, hk, hi, by simp [isHostProtected, hall k hk hi]⟩

end Soundness

namespace Sample

def input : PipelineInput where
  history          := [{ id := ⟨"m1", by decide⟩, role := .user, content := "hi" }]
  maxContextTokens := some 20
  reserveForReply  := some 8
  countTokens      := String.length

-- A strategy that adds a pinned message of its own.
def addNote : ContextShiftStrategy where
  id := "notes"
  shift request := some {
    kept := request.messages ++ [{ id := "note", role := .system, content := "remember", pinned := true }]
    excluded        := []
    estimatedTokens := 0
    truncated       := false
    fitsBudget      := true
  }

-- A hook that writes more into every message.
def enlarge : PipelineInterceptor where
  id := "loud"
  intercept messages := some <| messages.map fun m => { m with content := m.content ++ "remember" }

-- A hook that drops every message and adds one without an identifier.
def replace : PipelineInterceptor where
  id := "forge"
  intercept _ := some [{ id := none, role := .system, content := "x", pinned := true }]

def replaced : PipelineInput :=
  { input with interceptors := [replace] }

def run : PipelineResult :=
  (runPromptPipeline replaced).toOption.getD ⟨[], 0, [], ⟨0, 0, 0⟩, ""⟩

def bareRun : PipelineResult :=
  (runPromptPipeline replaced.bare).toOption.getD ⟨[], 0, [], ⟨0, 0, 0⟩, ""⟩

end Sample

open Sample in
theorem runPromptPipeline_sound_replaced : ∃ s, runStages replaced = .ok s ∧
    run = pipelineResult replaced s ∧
      run.tokenBudget.promptTokens =
        (run.messages.map fun m => replaced.countTokens m.content + perMessageOverhead).sum ∧
      run.tokenBudget.promptTokens ≤ contextLimit replaced - reserve replaced ∧
      ∀ m ∈ (assemblePromptMessages replaced.toPromptInput).messages, isHostProtected m →
        ∃ k ∈ s.finalShift.kept, k.id = m.id ∧ isHostProtected k :=
  runPromptPipeline_sound <| by decide +kernel

section Survival

variable {input : PipelineInput}

-- Where the bare run returns, the run with plugins does so exactly if nobody cancels it and neither
-- the strategy nor the hooks leave fixed messages that are over the budget.
theorem runPromptPipeline_survives (h : runPromptPipeline input.bare = .ok base) :
    (∃ result, runPromptPipeline input = .ok result) ↔
      (∀ n ≤ input.interceptors.length + 1, input.aborted n = false) ∧
      totalFor input.countTokens (fixedMessages <| sanitizedStrategyMessages input (assembled input))
        ≤ promptBudget input ∧
      totalFor input.countTokens
        (fixedMessages <| intercepted input (initialShift input (assembled input)).kept)
        ≤ promptBudget input := by
  have hb : 0 < promptBudget input := by
    have ⟨_, hs, _⟩ := runPromptPipeline_eq_ok.mp h
    exact (runStages_eq_ok.mp hs).left
  rw [← fitsBudget_iff, ← fitsBudget_iff]
  constructor
  case mp =>
    intro ⟨result, hr⟩
    have ⟨s, hs, _⟩ := runPromptPipeline_eq_ok.mp hr
    have ⟨_, ha, hi, hf, _⟩ := runStages_eq_ok.mp hs
    exact ⟨ha, hi, hf⟩
  case mpr =>
    intro ⟨ha, hi, hf⟩
    exact ⟨_, runPromptPipeline_eq_ok.mpr ⟨_, runStages_eq_ok.mpr ⟨hb, ha, hi, hf, rfl⟩, rfl⟩⟩

end Survival

open Sample in
theorem runPromptPipeline_survives_replaced :
    (∃ result, runPromptPipeline replaced = .ok result) ↔
      (∀ n ≤ replaced.interceptors.length + 1, replaced.aborted n = false) ∧
      totalFor replaced.countTokens
        (fixedMessages <| sanitizedStrategyMessages replaced (assembled replaced))
        ≤ promptBudget replaced ∧
      totalFor replaced.countTokens
        (fixedMessages <| intercepted replaced (initialShift replaced (assembled replaced)).kept)
        ≤ promptBudget replaced :=
  have h : runPromptPipeline replaced.bare = .ok bareRun := by decide +kernel
  runPromptPipeline_survives h

-- A strategy kills the run with one pinned message, and so does a hook that fills up a message that
-- the host has pinned.
open Sample in
theorem one_plugin_kills : (∃ base, runPromptPipeline input = .ok base) ∧
    { input with contextStrategy := some addNote }.bare = input ∧
    { input with interceptors := [enlarge] }.bare = input ∧
    runPromptPipeline { input with contextStrategy := some addNote } =
      .error (.tokenBudgetExceeded 20 8 18) ∧
    runPromptPipeline { input with interceptors := [enlarge] } =
      .error (.tokenBudgetExceeded 20 8 14) := by
  refine ⟨⟨bareRun, ?_⟩, rfl, rfl, ?_, ?_⟩
  all_goals decide +kernel

end Prompt
