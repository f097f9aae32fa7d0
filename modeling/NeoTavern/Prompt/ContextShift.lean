import Mathlib
import NeoTavern.Lib.Lists
import NeoTavern.Lib.Shedding

namespace Prompt

open Shedding

inductive MessageRole
  | system
  | user
  | assistant
  | tool
  | plugin
  deriving DecidableEq

inductive PromptSource
  | system
  | history
  | user
  | lorebook
  | memory
  | plugin
  | template
  deriving DecidableEq

structure PromptMessage where
  -- Which object it is. Only `dedupePromptMessages` looks at it, and only where there is no id.
  object  : Nat := 0
  id      : Option String
  role    : MessageRole
  content : String
  name    : Option String := none
  pinned  : Bool := false
  pairId  : Option String := none
  source  : Option PromptSource := none
  deriving DecidableEq

-- The strings that count as true.
def truthy (s : Option String) : Bool :=
  s.any (· ≠ "")

abbrev TokenCounter := String → Nat

structure ContextShiftResult where
  kept            : List PromptMessage
  excluded        : List PromptMessage
  estimatedTokens : Nat
  truncated       : Bool
  fitsBudget      : Bool
  strategy        : Option String := none
  deriving DecidableEq

def isProtectedMessage (m : PromptMessage) : Bool :=
  m.pinned || (m.role = .system && (m.source = none || m.source = some .system))

section

variable (countTokens : TokenCounter) (messages : List PromptMessage)

def perMessageOverhead : Nat := 4

def cost (m : PromptMessage) : Nat :=
  countTokens m.content + perMessageOverhead

def totalFor : Nat :=
  (messages.map <| cost countTokens).sum

-- The objects of a list that is shifted are different ones, so a message is given by its place.
def isProtectedAt (i : Nat) : Bool :=
  messages[i]?.any isProtectedMessage

def linkedToolMessages (i : Nat) : List Nat :=
  match messages[i]? with
  | none         => []
  | some message =>
    if truthy message.pairId then
      (List.range messages.length).filter fun j => messages[j]?.any fun candidate =>
        candidate.pairId = message.pairId &&
          (candidate.role = .assistant || candidate.role = .tool)
    else
      match message.role, i with
      | .tool,      0     => [0]
      | .tool,      j + 1 => if messages[j]?.any (·.role = .assistant) then [j, j + 1] else [j + 1]
      | .assistant, _     => if messages[i + 1]?.any (·.role = .tool) then [i, i + 1] else [i]
      | _,          _     => [i]

def remaining (removed : List Nat) : List PromptMessage :=
  messages.zipIdx.filter (·.snd ∉ removed) |>.map (·.fst)

variable (budgetTokens : Int)

-- Drops the oldest messages first, each with the messages that are linked to it.
def shiftLoop : List Nat → List Nat → List Nat
  | [],             removed => removed
  | message :: rest, removed =>
    if totalFor countTokens (remaining messages removed) ≤ budgetTokens then
      removed
    else if (linkedToolMessages messages message).any (isProtectedAt messages) then
      shiftLoop rest removed
    else
      shiftLoop rest <| release removed <| linkedToolMessages messages message

-- The places of the messages that `shiftContext` excludes, in the order in which it does so.
def removedBy : List Nat :=
  let removable := (List.range messages.length).filter fun i => !isProtectedAt messages i
  shiftLoop countTokens messages budgetTokens removable []

def shiftContext : ContextShiftResult :=
  let removed := removedBy countTokens messages budgetTokens
  let kept := remaining messages removed
  let excluded := removed.filterMap (messages[·]?)
  {
    kept
    excluded
    estimatedTokens := totalFor countTokens kept
    truncated       := excluded.length > 0
    fitsBudget      := totalFor countTokens kept ≤ budgetTokens
  }

end

-- The groups of linked messages that may be dropped.
def removableGroups (messages : List PromptMessage) : List (List Nat) :=
  (List.range messages.length).filter (fun i => !isProtectedAt messages i)
    |>.map (linkedToolMessages messages)
    |>.filter fun g => !g.any (isProtectedAt messages)

-- What no pass of `shiftContext` drops: protected messages, and messages that no group of
-- unprotected messages takes along.
def fixedMessages (messages : List PromptMessage) : List PromptMessage :=
  remaining messages (removableGroups messages).flatten

section Lemmas

variable {countTokens : TokenCounter} {messages : List PromptMessage} {budgetTokens : Int}
  {removed : List Nat}

theorem shiftLoop_eq_shed {is : List Nat} : shiftLoop countTokens messages budgetTokens is removed =
    shed (fun r => totalFor countTokens (remaining messages r) ≤ budgetTokens)
      ((is.map (linkedToolMessages messages)).filter fun g => !g.any (isProtectedAt messages))
      removed := by
  induction is generalizing removed
  case nil => rfl
  case cons i is ih =>
    rw [shiftLoop, List.map_cons]
    by_cases hp : (linkedToolMessages messages i).any (isProtectedAt messages)
    case pos =>
      rw [List.filter_cons_of_neg (by simp [hp]), if_pos hp, ih, ite_eq_right_iff]
      exact fun hb => (shed_of_affordable <| by simpa using hb).symm
    case neg =>
      rw [List.filter_cons_of_pos (by simpa using hp), if_neg hp, ih, shed]
      simp

theorem removedBy_eq_shed : removedBy countTokens messages budgetTokens =
    shed (fun r => totalFor countTokens (remaining messages r) ≤ budgetTokens)
      (removableGroups messages) [] :=
  shiftLoop_eq_shed

theorem remaining_sublist : (remaining messages removed).Sublist messages := by
  have h := (List.filter_sublist (l := messages.zipIdx) (p := (·.snd ∉ removed))).map Prod.fst
  rwa [List.zipIdx_map_fst] at h

theorem mem_remaining : m ∈ remaining messages removed ↔
    ∃ i, messages[i]? = some m ∧ i ∉ removed := by
  simp [remaining, List.mem_zipIdx_iff_getElem?]

-- Dropping more leaves less.
theorem remaining_mono (h : removed ⊆ removed') :
    (remaining messages removed').Sublist (remaining messages removed) := by
  unfold remaining
  apply List.Sublist.map
  apply List.monotone_filter_right
  intro x hx
  simp only [decide_eq_true_eq] at hx ⊢
  exact fun hm => hx <| h hm

theorem totalFor_mono (h : ms.Sublist ms') : totalFor countTokens ms ≤ totalFor countTokens ms' :=
  (h.map _).sum_le_sum fun _ _ => Nat.zero_le _

-- The fixed messages fit into the budget exactly if the list can be made to fit.
theorem fitsBudget_iff : (shiftContext countTokens messages budgetTokens).fitsBudget ↔
    totalFor countTokens (fixedMessages messages) ≤ budgetTokens := by
  have h : ∀ r r' : List Nat, r ⊆ r' →
      decide (totalFor countTokens (remaining messages r) ≤ budgetTokens) →
      decide (totalFor countTokens (remaining messages r') ≤ budgetTokens) := by
    intro r r' hs hr
    have : totalFor countTokens (remaining messages r') ≤ totalFor countTokens (remaining messages r) :=
      totalFor_mono <| remaining_mono hs
    simp only [decide_eq_true_eq] at hr ⊢
    omega
  have hs := @affordable_shed _ _ _ (removableGroups messages) [] h
  simpa [shiftContext, removedBy_eq_shed, fixedMessages] using hs

-- A group that is dropped has no protected message.
theorem not_isProtectedAt (h : i ∈ removedBy countTokens messages budgetTokens) :
    ¬isProtectedAt messages i := by
  rw [removedBy_eq_shed] at h
  rcases shed_subset h with hn | ⟨g, hg, hi⟩
  · exact absurd hn List.not_mem_nil
  · rw [removableGroups, List.mem_filter] at hg
    simpa using List.any_eq_false.mp (by simpa using hg.right) i hi

theorem mem_kept (h : m ∈ messages) (hp : isProtectedMessage m) :
    m ∈ (shiftContext countTokens messages budgetTokens).kept := by
  have ⟨i, hi⟩ := List.mem_iff_getElem?.mp h
  refine mem_remaining.mpr ⟨i, hi, fun hr => ?_⟩
  exact not_isProtectedAt hr <| by simp [isProtectedAt, hi, hp]

theorem kept_sublist : (shiftContext countTokens messages budgetTokens).kept.Sublist messages :=
  remaining_sublist

end Lemmas
end Prompt

namespace Prompt

open Shedding

-- The order in which messages are removed is that of a comparison of messages with their places. The priority of
-- a strategy gives one.
structure ContextShiftOptions where
  perMessageOverhead : Nat := 4
  removedBefore      : PromptMessage × Nat → PromptMessage × Nat → Bool :=
    fun left right => left.snd ≤ right.snd

def byPriority (removalPriority : PromptMessage → Nat → Rat) (left right : PromptMessage × Nat) : Bool :=
  removalPriority left.fst left.snd ≤ removalPriority right.fst right.snd

namespace ContextShiftOptions

variable (options : ContextShiftOptions) (countTokens : TokenCounter) (messages : List PromptMessage)

def totalFor : Nat :=
  (messages.map fun m => countTokens m.content + options.perMessageOverhead).sum

-- The places of the messages that are not protected, the first one to be removed first.
def removable : List Nat :=
  (messages.zipIdx.filter fun e => !isProtectedMessage e.fst).mergeSort options.removedBefore |>.map (·.snd)

variable (budgetTokens : Int)

def shiftLoop : List Nat → List Nat → List Nat
  | [],              removed => removed
  | message :: rest, removed =>
    if options.totalFor countTokens (remaining messages removed) ≤ budgetTokens then
      removed
    else if (linkedToolMessages messages message).any (isProtectedAt messages) then
      shiftLoop rest removed
    else
      shiftLoop rest <| release removed <| linkedToolMessages messages message

def removedBy : List Nat :=
  options.shiftLoop countTokens messages budgetTokens (options.removable messages) []

def shiftContext : ContextShiftResult :=
  let removed := options.removedBy countTokens messages budgetTokens
  let kept := remaining messages removed
  let excluded := removed.filterMap (messages[·]?)
  {
    kept
    excluded
    estimatedTokens := options.totalFor countTokens kept
    truncated       := excluded.length > 0
    fitsBudget      := options.totalFor countTokens kept ≤ budgetTokens
  }

-- The groups that may be removed, in order.
def groups : List (List Nat) :=
  (options.removable messages).map (linkedToolMessages messages) |>.filter fun g => !g.any (isProtectedAt messages)

end ContextShiftOptions

section Cut

variable (options : ContextShiftOptions) (countTokens : TokenCounter) (messages : List PromptMessage)
variable (budgetTokens : Int)

-- What a result is as a cut of the messages at the places that are removed.
structure GreedyCut (removed : List Nat) (result : ContextShiftResult) : Prop where
  kept         : result.kept = remaining messages removed
  excluded     : result.excluded = removed.filterMap (messages[·]?)
  sublist      : result.kept.Sublist messages
  perm         : (result.kept ++ result.excluded).Perm messages
  shielded     : result.kept.filter isProtectedMessage = messages.filter isProtectedMessage
  tokens       : result.estimatedTokens = options.totalFor countTokens result.kept
  fits         : result.fitsBudget = true ↔ result.estimatedTokens ≤ budgetTokens
  untouched    : options.totalFor countTokens messages ≤ budgetTokens → result.excluded = []
  minimal      : removed ≠ [] → ∃ before, ∃ g ∈ options.groups messages, removed = release before g ∧
    before ≠ removed ∧ budgetTokens < options.totalFor countTokens (remaining messages before)

-- What is kept without being protected is linked to a message that is.
def KeptForOthers (removed : List Nat) : Prop :=
  ∀ i m, messages[i]? = some m → isProtectedMessage m = false → i ∉ removed →
    ∃ j, i ∈ linkedToolMessages messages j ∧ (linkedToolMessages messages j).any (isProtectedAt messages)

-- A message that is linked as a call or a result is one.
def Callable : Prop :=
  ∀ m ∈ messages, isProtectedMessage m = false → truthy m.pairId → m.role = .assistant ∨ m.role = .tool

end Cut

section Lemmas

variable {options : ContextShiftOptions} {countTokens : TokenCounter} {messages : List PromptMessage}
variable {budgetTokens : Int} {removed : List Nat} {i j : Nat} {m : PromptMessage}

theorem mem_removable : i ∈ options.removable messages ↔
    ∃ m, messages[i]? = some m ∧ isProtectedMessage m = false := by
  simp only [ContextShiftOptions.removable, List.mem_map, List.mem_mergeSort, List.mem_filter, Bool.not_eq_true']
  constructor
  · rintro ⟨⟨m, i⟩, ⟨hmem, hm⟩, rfl⟩
    exact ⟨m, List.mem_zipIdx_iff_getElem?.mp hmem, hm⟩
  · rintro ⟨m, hi, hm⟩
    exact ⟨(m, i), ⟨List.mem_zipIdx_iff_getElem?.mpr hi, hm⟩, rfl⟩

theorem mem_groups {g : List Nat} : g ∈ options.groups messages ↔ ∃ i m, messages[i]? = some m ∧
    isProtectedMessage m = false ∧ g = linkedToolMessages messages i ∧ ¬g.any (isProtectedAt messages) := by
  simp only [ContextShiftOptions.groups, List.mem_filter, List.mem_map, mem_removable, Bool.not_eq_true',
    Bool.not_eq_true]
  constructor
  · rintro ⟨⟨i, ⟨m, hi, hm⟩, rfl⟩, hg⟩
    exact ⟨i, m, hi, hm, rfl, hg⟩
  · rintro ⟨i, m, hi, hm, rfl, hg⟩
    exact ⟨⟨i, ⟨m, hi, hm⟩, rfl⟩, hg⟩

-- The groups are the same ones in any order.
theorem mem_groups_iff {g : List Nat} : g ∈ options.groups messages ↔ g ∈ removableGroups messages := by
  rw [mem_groups]
  simp only [removableGroups, List.mem_filter, List.mem_map, List.mem_range, Bool.not_eq_true', Bool.not_eq_true]
  constructor
  · rintro ⟨i, m, hi, hm, rfl, hg⟩
    exact ⟨⟨i, ⟨(List.getElem?_eq_some_iff.mp hi).choose, by simp [isProtectedAt, hi, hm]⟩, rfl⟩, hg⟩
  · rintro ⟨⟨i, ⟨hlt, hm⟩, rfl⟩, hg⟩
    refine ⟨i, messages[i], List.getElem?_eq_getElem hlt, ?_, rfl, hg⟩
    simpa [isProtectedAt, List.getElem?_eq_getElem hlt] using hm

theorem removedWith_eq_shed : options.removedBy countTokens messages budgetTokens =
    shed (fun r => options.totalFor countTokens (remaining messages r) ≤ budgetTokens)
      (options.groups messages) [] := by
  have hloop (is removed : List Nat) : options.shiftLoop countTokens messages budgetTokens is removed =
      shed (fun r => options.totalFor countTokens (remaining messages r) ≤ budgetTokens)
        ((is.map (linkedToolMessages messages)).filter fun g => !g.any (isProtectedAt messages)) removed := by
    induction is generalizing removed
    case nil          => rfl
    case cons i is ih =>
      rw [ContextShiftOptions.shiftLoop, List.map_cons]
      by_cases hp : (linkedToolMessages messages i).any (isProtectedAt messages)
      case pos =>
        rw [List.filter_cons_of_neg (by simp [hp]), if_pos hp, ih, ite_eq_right_iff]
        exact fun hb => (shed_of_affordable <| by simpa using hb).symm
      case neg =>
        rw [List.filter_cons_of_pos (by simpa using hp), if_neg hp, ih, shed]
        simp
  exact hloop ..

theorem totalWith_mono {ms ms' : List PromptMessage} (h : ms.Sublist ms') :
    options.totalFor countTokens ms ≤ options.totalFor countTokens ms' :=
  (h.map _).sum_le_sum fun _ _ => Nat.zero_le _

section Places

-- What is removed and what remains are the messages.
theorem remaining_append_perm (h : removed.Nodup) :
    (remaining messages removed ++ removed.filterMap (messages[·]?)).Perm messages := by
  have hremoved : (removed.filterMap (messages[·]?)).Perm
    ((messages.zipIdx.filter (·.snd ∈ removed)).map (·.fst)) := Lists.filterMap_getElem?_perm h
  have hsplit := (List.filter_append_perm (fun e : PromptMessage × Nat => decide (e.snd ∉ removed))
    messages.zipIdx).map Prod.fst
  rw [List.map_append, List.zipIdx_map_fst] at hsplit
  refine (hremoved.append_left _).trans ?_
  simpa [remaining] using hsplit

theorem filter_remaining (h : ∀ i m, messages[i]? = some m → isProtectedMessage m → i ∉ removed) :
    (remaining messages removed).filter isProtectedMessage = messages.filter isProtectedMessage := by
  have hall : (messages.zipIdx.filter fun e => isProtectedMessage e.fst && decide (e.snd ∉ removed)) =
      messages.zipIdx.filter fun e => isProtectedMessage e.fst := by
    apply List.filter_congr
    intro e he
    cases hp : isProtectedMessage e.fst
    case false => rfl
    case true  => simpa using h e.snd e.fst (List.mem_zipIdx_iff_getElem?.mp he) hp
  rw [remaining, List.filter_map, List.filter_filter, ← Lists.map_fst_filter_zipIdx messages isProtectedMessage,
    ← hall]
  rfl

end Places

section Linked

-- A message belongs to its own group, and one that is no call or result belongs to no other.
theorem self_mem_linked (hi : messages[i]? = some m)
    (h : truthy m.pairId → m.role = .assistant ∨ m.role = .tool) : i ∈ linkedToolMessages messages i := by
  have hlt : i < messages.length := (List.getElem?_eq_some_iff.mp hi).choose
  rw [linkedToolMessages, hi]
  dsimp only
  split
  case isTrue hp  => exact List.mem_filter.mpr ⟨List.mem_range.mpr hlt, by rw [hi]; simp [h hp]⟩
  case isFalse hp =>
    split
    · simp
    · split <;> simp
    · split <;> simp
    · simp

theorem not_mem_linked (hi : messages[i]? = some m) (hp : truthy m.pairId) (ha : m.role ≠ .assistant)
    (ht : m.role ≠ .tool) : i ∉ linkedToolMessages messages j := by
  intro hmem
  rw [linkedToolMessages] at hmem
  cases hj : messages[j]?
  case none    => simp [hj] at hmem
  case some m' =>
    rw [hj] at hmem
    dsimp only at hmem
    split at hmem
    case isTrue      =>
      have hcandidate := (List.mem_filter.mp hmem).right
      rw [hi] at hcandidate
      simp [ha, ht] at hcandidate
    case isFalse hp' =>
      have hne : i ≠ j := by
        rintro rfl
        cases hi.symm.trans hj
        exact hp' hp
      split at hmem
      · exact hne <| List.mem_singleton.mp hmem
      · split at hmem
        case isTrue hprev =>
          simp only [List.mem_cons, List.not_mem_nil, or_false] at hmem
          cases hmem
          case inl heq =>
            subst heq
            rw [hi] at hprev
            simp [ha] at hprev
          case inr heq => exact hne heq
        case isFalse      => exact hne <| List.mem_singleton.mp hmem
      · split at hmem
        case isTrue hnext =>
          simp only [List.mem_cons, List.not_mem_nil, or_false] at hmem
          cases hmem
          case inl heq => exact hne heq
          case inr heq =>
            subst heq
            rw [hi] at hnext
            simp [ht] at hnext
        case isFalse      => exact hne <| List.mem_singleton.mp hmem
      · exact hne <| List.mem_singleton.mp hmem

end Linked

theorem removedWith_groups (h : i ∈ options.removedBy countTokens messages budgetTokens) :
    ∃ g ∈ options.groups messages, i ∈ g := by
  rw [removedWith_eq_shed] at h
  cases shed_subset h
  case inl hn => cases hn
  case inr hg => exact hg

theorem not_removed_of_protected (hi : messages[i]? = some m) (hm : isProtectedMessage m) :
    i ∉ options.removedBy countTokens messages budgetTokens := by
  intro hmem
  have ⟨g, hg, hig⟩ := removedWith_groups hmem
  have ⟨_, _, _, _, _, hno⟩ := mem_groups.mp hg
  exact hno <| List.any_eq_true.mpr ⟨i, hig, by simp [isProtectedAt, hi, hm]⟩

theorem remaining_nil : remaining messages [] = messages := by
  simp [remaining]

theorem greedyCut : GreedyCut options countTokens messages budgetTokens
    (options.removedBy countTokens messages budgetTokens)
    (options.shiftContext countTokens messages budgetTokens) := by
  have hnodup : (options.removedBy countTokens messages budgetTokens).Nodup := by
    rw [removedWith_eq_shed]
    exact nodup_shed .nil
  constructor
  case kept      => rfl
  case excluded  => rfl
  case sublist   => exact remaining_sublist
  case perm      => exact remaining_append_perm hnodup
  case shielded  => exact filter_remaining fun i m hi hm => not_removed_of_protected hi hm
  case tokens    => rfl
  case fits      => exact decide_eq_true_iff
  case untouched =>
    intro hle
    have hnone : options.removedBy countTokens messages budgetTokens = [] := by
      rw [removedWith_eq_shed]
      exact shed_of_affordable <| by simpa [remaining_nil] using hle
    simp [ContextShiftOptions.shiftContext, hnone]
  case minimal   =>
    intro hne
    rw [removedWith_eq_shed] at hne ⊢
    have ⟨before, g, hg, heq, hbefore, hno⟩ := shed_minimal hne
    exact ⟨before, g, hg, heq, heq ▸ hbefore, by simpa using hno⟩

-- The messages fit exactly if those fit that no group of unprotected messages takes along.
theorem fitsWith_iff : (options.shiftContext countTokens messages budgetTokens).fitsBudget = true ↔
    options.totalFor countTokens (fixedMessages messages) ≤ budgetTokens := by
  have hmono : ∀ r r' : List Nat, r ⊆ r' →
      decide (options.totalFor countTokens (remaining messages r) ≤ budgetTokens) →
      decide (options.totalFor countTokens (remaining messages r') ≤ budgetTokens) := by
    intro r r' hs hr
    have : options.totalFor countTokens (remaining messages r') ≤
      options.totalFor countTokens (remaining messages r) := totalWith_mono <| remaining_mono hs
    simp only [decide_eq_true_eq] at hr ⊢
    omega
  have hshed := @affordable_shed _ _ _ (options.groups messages) [] hmono
  have hfixed : remaining messages (options.groups messages).flatten = fixedMessages messages := by
    rw [fixedMessages, remaining, remaining]
    congr 1
    apply List.filter_congr
    intro e _
    simp [mem_groups_iff]
  rw [← removedWith_eq_shed, List.nil_append, hfixed] at hshed
  simpa [ContextShiftOptions.shiftContext] using hshed

theorem keptForOthers_iff :
    ((options.shiftContext countTokens messages budgetTokens).fitsBudget = false →
      KeptForOthers messages (options.removedBy countTokens messages budgetTokens)) ↔
    Callable messages ∨ options.totalFor countTokens (fixedMessages messages) ≤ budgetTokens := by
  by_cases hfits : (options.shiftContext countTokens messages budgetTokens).fitsBudget = true
  case pos => exact iff_of_true (fun h => by rw [hfits] at h; cases h) <| .inr <| fitsWith_iff.mp hfits
  case neg =>
    rw [or_iff_left (fitsWith_iff.not.mp hfits)]
    have hfalse := Bool.eq_false_iff.mpr hfits
    constructor
    case mp  =>
      intro h m hm hunprotected hp
      have ⟨i, hi⟩ := List.mem_iff_getElem?.mp hm
      by_contra hrole
      have ⟨ha, ht⟩ := not_or.mp hrole
      have hkept : i ∉ options.removedBy countTokens messages budgetTokens := by
        intro hmem
        have ⟨g, hg, hig⟩ := removedWith_groups hmem
        obtain ⟨j, _, _, _, rfl, _⟩ := mem_groups.mp hg
        exact not_mem_linked hi hp ha ht hig
      have ⟨j, hj, _⟩ := h hfalse i m hi hunprotected hkept
      exact not_mem_linked hi hp ha ht hj
    case mpr =>
      intro h _ i m hi hunprotected hkept
      have hself := self_mem_linked hi <| h m (List.mem_of_getElem? hi) hunprotected
      by_contra hno
      have hgroup : ¬(linkedToolMessages messages i).any (isProtectedAt messages) :=
        fun hany => hno ⟨i, hself, hany⟩
      have hg : linkedToolMessages messages i ∈ options.groups messages :=
        mem_groups.mpr ⟨i, m, hi, hunprotected, rfl, hgroup⟩
      have hshed : ¬decide (options.totalFor countTokens (remaining messages
          (shed (fun r => options.totalFor countTokens (remaining messages r) ≤ budgetTokens)
            (options.groups messages) [])) ≤ budgetTokens) := by
        rw [← removedWith_eq_shed]
        exact hfits
      have hsubset : linkedToolMessages messages i ⊆
          shed (fun r => options.totalFor countTokens (remaining messages r) ≤ budgetTokens)
            (options.groups messages) [] := subset_of_not_affordable hshed hg
      rw [← removedWith_eq_shed] at hsubset
      exact hkept <| hsubset hself

theorem removable_default : ContextShiftOptions.removable {} messages =
    (List.range messages.length).filter fun i => !isProtectedAt messages i := by
  have hsorted : (messages.zipIdx.filter fun e => !isProtectedMessage e.fst).Pairwise fun left right =>
      ({} : ContextShiftOptions).removedBefore left right = true :=
    (Lists.pairwise_zipIdx.filter _).imp fun h => decide_eq_true h.le
  have hfilter : (messages.zipIdx.filter fun e => !isProtectedMessage e.fst) =
      messages.zipIdx.filter fun e => !isProtectedAt messages e.snd := by
    apply List.filter_congr
    intro e he
    simp [isProtectedAt, List.mem_zipIdx_iff_getElem?.mp he]
  rw [ContextShiftOptions.removable, List.mergeSort_of_pairwise hsorted, hfilter, List.range_eq_range',
    ← List.zipIdx_map_snd 0 messages, List.filter_map]
  rfl

theorem removedBy_default : ContextShiftOptions.removedBy {} countTokens messages budgetTokens =
    removedBy countTokens messages budgetTokens := by
  rw [removedWith_eq_shed, removedBy_eq_shed, ContextShiftOptions.groups, removable_default]
  rfl

-- Without options it is the shift of the pipeline.
theorem shiftContext_default : ContextShiftOptions.shiftContext {} countTokens messages budgetTokens =
    shiftContext countTokens messages budgetTokens := by
  simp only [ContextShiftOptions.shiftContext, shiftContext, removedBy_default]
  rfl

end Lemmas

-- Shifting is a greedy cut in any order. Where it fails, everything that is left is protected, by itself or by its
-- group, exactly if every message with a pair is a call or a result.
theorem shiftContext_cut (options : ContextShiftOptions) (countTokens : TokenCounter)
    (messages : List PromptMessage) (budgetTokens : Int) :
    GreedyCut options countTokens messages budgetTokens (options.removedBy countTokens messages budgetTokens)
      (options.shiftContext countTokens messages budgetTokens) ∧
    (((options.shiftContext countTokens messages budgetTokens).fitsBudget = false →
        KeptForOthers messages (options.removedBy countTokens messages budgetTokens)) ↔
      Callable messages ∨ options.totalFor countTokens (fixedMessages messages) ≤ budgetTokens) :=
  ⟨greedyCut, keptForOthers_iff⟩

def stray : PromptMessage where
  id      := none
  role    := .user
  content := "x"
  pairId  := some "p"

-- A message of the user with a pair stays, although no protected message needs it.
theorem stray_stays : (ContextShiftOptions.shiftContext {} String.length [stray] 0).fitsBudget = false ∧
    ¬KeptForOthers [stray] (ContextShiftOptions.removedBy {} String.length [stray] 0) := by
  constructor
  case left  =>
    rw [shiftContext_default]
    decide +kernel
  case right =>
    intro h
    have hkept : 0 ∉ ContextShiftOptions.removedBy {} String.length [stray] 0 := by
      rw [removedBy_default]
      decide +kernel
    have ⟨j, hj, _⟩ := h 0 stray rfl rfl hkept
    have hno : 0 ∉ linkedToolMessages [stray] j := not_mem_linked rfl rfl nofun nofun
    exact hno hj

section Together

variable {options : ContextShiftOptions} {countTokens : TokenCounter} {messages : List PromptMessage}
variable {budgetTokens : Int} {i j k : Nat} {m m' : PromptMessage}

theorem lt_of_mem_linked (h : i ∈ linkedToolMessages messages k) : i < messages.length := by
  cases hk : messages[k]?
  case none   => simp [linkedToolMessages, hk] at h
  case some m =>
    have hlt : k < messages.length := (List.getElem?_eq_some_iff.mp hk).choose
    simp only [linkedToolMessages, hk] at h
    split at h
    case isTrue  => exact List.mem_range.mp (List.mem_filter.mp h).left
    case isFalse => split at h <;> grind

-- The order of removal that puts one message in front of all others.
def removesFirst (k : Nat) : ContextShiftOptions where
  removedBefore := byPriority fun _ n => if n = k then 0 else 1

theorem groups_removesFirst (hk : messages[k]? = some m) (hm : isProtectedMessage m = false)
    (hg : ¬(linkedToolMessages messages k).any (isProtectedAt messages)) :
    ∃ rest, (removesFirst k).groups messages = linkedToolMessages messages k :: rest := by
  have hmem : k ∈ (removesFirst k).removable messages := mem_removable.mpr ⟨m, hk, hm⟩
  have hsorted : ((removesFirst k).removable messages).Pairwise fun a b => a = k ∨ b ≠ k := by
    apply List.pairwise_map.mpr
    have hpairwise := @List.pairwise_mergeSort _ (removesFirst k).removedBefore
      (fun a b c hab hbc => by simp [removesFirst, byPriority] at hab hbc ⊢; grind)
      (fun a b => by simp [removesFirst, byPriority]; grind) (messages.zipIdx.filter fun e => !isProtectedMessage e.fst)
    exact hpairwise.imp fun h => by simp [removesFirst, byPriority] at h; grind
  rw [ContextShiftOptions.groups]
  cases hl : (removesFirst k).removable messages
  case nil         => simp [hl] at hmem
  case cons n rest =>
    rw [hl] at hsorted hmem
    have hn : n = k := by
      cases List.mem_cons.mp hmem
      case inl heq   => exact heq.symm
      case inr hrest => exact ((List.pairwise_cons.mp hsorted).left k hrest).resolve_right fun h => h rfl
    subst hn
    rw [List.map_cons, List.filter_cons_of_pos (by simpa using hg)]
    exact ⟨_, rfl⟩

-- A budget that the first group is enough for.
theorem removedBy_removesFirst (hk : messages[k]? = some m) (hm : isProtectedMessage m = false)
    (hg : ¬(linkedToolMessages messages k).any (isProtectedAt messages)) (hi : i ∈ linkedToolMessages messages k) :
    ∃ budgetTokens, (removesFirst k).removedBy (fun _ => 0) messages budgetTokens =
      release [] (linkedToolMessages messages k) := by
  have ⟨rest, hgroups⟩ := groups_removesFirst hk hm hg
  have hlt := lt_of_mem_linked hi
  let total (removed : List Nat) := (removesFirst k).totalFor (fun _ => 0) (remaining messages removed)
  have htotal (removed : List Nat) : total removed = 4 * (remaining messages removed).length := by
    simp [total, ContextShiftOptions.totalFor, removesFirst, Nat.mul_comm]
  have hless : (remaining messages <| release [] (linkedToolMessages messages k)).length < messages.length := by
    rw [remaining, List.length_map, ← List.length_zipIdx (l := messages) (i := 0)]
    refine List.length_filter_lt_length_iff_exists.mpr ⟨(messages[i], i), ?_, by simp [hi]⟩
    exact List.mem_zipIdx_iff_getElem?.mpr <| List.getElem?_eq_getElem hlt
  refine ⟨total <| release [] (linkedToolMessages messages k), ?_⟩
  have hnil : total [] = 4 * messages.length := by rw [htotal, remaining_nil]
  have hcut := htotal <| release [] (linkedToolMessages messages k)
  have hall : ¬(total [] : Int) ≤ total (release [] <| linkedToolMessages messages k) := by omega
  rw [removedWith_eq_shed, hgroups, shed, if_neg (by simpa using hall), shed_of_affordable (by simp [total])]

-- A call and the result right behind it are in the same groups.
theorem mem_linked_succ (hi : messages[i]? = some m) (hj : messages[i + 1]? = some m') (hm : m.role = .assistant)
    (hm' : m'.role = .tool) (hp : ¬truthy m.pairId) (hp' : ¬truthy m'.pairId) :
    i ∈ linkedToolMessages messages k ↔ i + 1 ∈ linkedToolMessages messages k := by
  cases hk : messages[k]?
  case none        => simp [linkedToolMessages, hk]
  case some caller =>
    simp only [linkedToolMessages, hk]
    split
    case isTrue htruthy =>
      have hne {pairId : Option String} (h : ¬truthy pairId) : pairId ≠ caller.pairId := fun heq => h <| heq ▸ htruthy
      simp [hi, hj, hne hp, hne hp']
    case isFalse        =>
      -- Where one of the two is the caller, the other one is its neighbour.
      cases hrole : caller.role <;> cases k <;> grind

-- Two messages leave together, whatever the counter, the budget and the order, exactly if no group that may be
-- removed has one of them alone. A call and the result right behind it do, if neither has a pair.
theorem leave_together_iff : ((∀ (options : ContextShiftOptions) (countTokens : TokenCounter) (budgetTokens : Int),
      i ∈ options.removedBy countTokens messages budgetTokens ↔
        j ∈ options.removedBy countTokens messages budgetTokens) ↔
    ∀ g ∈ removableGroups messages, i ∈ g ↔ j ∈ g) ∧
    (messages[i]? = some m → messages[i + 1]? = some m' → m.role = .assistant → m'.role = .tool → ¬truthy m.pairId →
      ¬truthy m'.pairId → ∀ g ∈ removableGroups messages, i ∈ g ↔ i + 1 ∈ g) := by
  refine ⟨⟨?_, ?_⟩, ?_⟩
  case refine_3 =>
    intro hi hj hm hm' hp hp' g hg
    have ⟨k, _, hk⟩ := List.mem_map.mp (List.mem_filter.mp hg).left
    rw [← hk]
    exact mem_linked_succ hi hj hm hm' hp hp'
  case refine_1 =>
    intro h g hg
    have hgroup : g ∈ ContextShiftOptions.groups {} messages := mem_groups_iff.mpr hg
    obtain ⟨k, m, hk, hm, rfl, hno⟩ := mem_groups.mp hgroup
    -- The group is removed first, and alone.
    have halone {n n' : Nat} (hn : n ∈ linkedToolMessages messages k)
        (h : ∀ (options : ContextShiftOptions) (countTokens : TokenCounter) (budgetTokens : Int),
          n ∈ options.removedBy countTokens messages budgetTokens →
            n' ∈ options.removedBy countTokens messages budgetTokens) : n' ∈ linkedToolMessages messages k := by
      have ⟨budgetTokens, hremoved⟩ := removedBy_removesFirst hk hm hno hn
      have hn' := h (removesFirst k) _ budgetTokens <| by rw [hremoved]; exact mem_release.mpr <| .inr hn
      rw [hremoved] at hn'
      exact (mem_release.mp hn').resolve_left List.not_mem_nil
    exact ⟨fun hi => halone hi fun _ _ _ => (h _ _ _).mp, fun hj => halone hj fun _ _ _ => (h _ _ _).mpr⟩
  case refine_2 =>
    intro h options countTokens budgetTokens
    have hwhole {n n' : Nat} (h : ∀ g ∈ removableGroups messages, n ∈ g → n' ∈ g)
        (hn : n ∈ options.removedBy countTokens messages budgetTokens) :
        n' ∈ options.removedBy countTokens messages budgetTokens := by
      rw [removedWith_eq_shed] at hn ⊢
      have ⟨g, hg, hmem, hsubset⟩ := (group_subset_shed hn).resolve_left List.not_mem_nil
      exact hsubset <| h g (mem_groups_iff.mp hg) hmem
    exact ⟨hwhole fun g hg => (h g hg).mp, hwhole fun g hg => (h g hg).mpr⟩

end Together

end Prompt
