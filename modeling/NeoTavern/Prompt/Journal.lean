import Mathlib
import NeoTavern.Prompt.Assembly

namespace Prompt

-- What every message that the host assembles has: an identifier, and the protection of a pin if it
-- comes from the system.
structure HostMessage (m : PromptMessage) : Prop where
  id     : truthy m.id
  pinned : m.source = some .system → m.pinned

namespace Buckets

def Sound (b : Buckets) : Prop :=
  ∀ blockId, ∀ m ∈ b blockId, HostMessage m

variable {b : Buckets} {blockId : CorePromptBlockId} {m : PromptMessage}

theorem Sound.push (h : b.Sound) (hm : HostMessage m) : (b.push blockId m).Sound := by
  intro i m' hm'
  unfold Buckets.push at hm'
  by_cases hi : i = blockId
  case neg => exact h i m' <| by rwa [Function.update_of_ne hi] at hm'
  case pos =>
    subst hi
    rw [Function.update_self, List.mem_append, List.mem_singleton] at hm'
    rcases hm' with hm' | rfl
    · exact h _ m' hm'
    · exact hm

theorem Sound.unshift (h : b.Sound) (hm : HostMessage m) : (b.unshift blockId m).Sound := by
  intro i m' hm'
  unfold Buckets.unshift at hm'
  by_cases hi : i = blockId
  case neg => exact h i m' <| by rwa [Function.update_of_ne hi] at hm'
  case pos =>
    subst hi
    rw [Function.update_self, List.mem_cons] at hm'
    rcases hm' with rfl | hm'
    · exact hm
    · exact h _ m' hm'

theorem Sound.foldl {α : Type} {f : Buckets → α → Buckets} {xs : List α} (h : b.Sound)
    (hf : ∀ b x, b.Sound → (f b x).Sound) : (xs.foldl f b).Sound := by
  induction xs generalizing b
  case nil          => exact h
  case cons x xs ih => exact ih <| hf b x h

end Buckets

section Assembly

variable {input : PromptInput} {b : Buckets}

theorem addSystemBlock_sound (h : b.Sound) (hi : i ≠ "") :
    (addSystemBlock input blockId i content b).Sound := by
  unfold addSystemBlock
  split
  · exact h
  · split
    · exact h
    · exact h.push ⟨by simp [systemMessage, truthy, hi], fun _ => rfl⟩

theorem addCharacter_sound (h : b.Sound) : (addCharacter input mainBlock b).Sound := by
  unfold addCharacter
  split
  case h_1 => exact h
  case h_2 =>
    iterate 5 refine addSystemBlock_sound ?_ (by decide)
    exact h

theorem addPersona_sound (h : b.Sound) : (addPersona input b).Sound := by
  unfold addPersona
  split
  case h_1 => exact h
  case h_2 =>
    split
    · exact addSystemBlock_sound h (by decide)
    · exact h.unshift ⟨by simp [systemMessage, truthy], fun _ => rfl⟩
    · exact h

theorem addContextBlock_sound (h : b.Sound) : (addContextBlock input b block).Sound := by
  unfold addContextBlock
  dsimp only
  split
  case isTrue  => exact h
  case isFalse =>
    refine h.push ⟨by simpa [contextMessage, truthy] using block.id.property, fun hs => ?_⟩
    simp only [contextMessage] at hs
    split at hs <;> cases hs

theorem addHistory_sound (h : b.Sound) : (addHistory input b message).Sound := by
  refine h.push ⟨by simpa [historyMessage, truthy] using message.id.property, fun hs => ?_⟩
  simp only [historyMessage, Option.some.injEq] at hs
  split at hs <;> cases hs

theorem addUserInput_sound (h : b.Sound) : (addUserInput input b).Sound := by
  unfold addUserInput
  split
  case h_1 => exact h
  case h_2 =>
    split
    · exact h
    · exact h.push ⟨by simp [truthy], fun _ => rfl⟩

theorem addAuthorNote_sound (h : b.Sound) : (addAuthorNote input b).Sound := by
  unfold addAuthorNote
  split
  · exact h
  · exact addSystemBlock_sound h (by decide)

theorem buckets_sound : (buckets input).Sound := by
  have he : Buckets.Sound fun _ => [] := fun _ _ hm => absurd hm List.not_mem_nil
  have h : (addPersona input <| addCharacter input
      ((configuredBlocks input).find? (·.id = .core .mainPrompt)) fun _ => []).Sound :=
    addPersona_sound <| addCharacter_sound he
  have h : Buckets.Sound (input.contextBlocks.foldl (addContextBlock input) _) :=
    h.foldl fun b block hb => addContextBlock_sound hb
  have h : Buckets.Sound (input.history.foldl (addHistory input) _) :=
    h.foldl fun b message hb => addHistory_sound hb
  unfold buckets
  dsimp only
  apply addAuthorNote_sound
  split
  · exact addSystemBlock_sound (addSystemBlock_sound (addUserInput_sound h) (by decide)) (by decide)
  · exact addSystemBlock_sound (addUserInput_sound h) (by decide)

theorem preparePromptBlockMessages_host (hm : m ∈ preparePromptBlockMessages input block) :
    HostMessage m := by
  unfold preparePromptBlockMessages at hm
  split at hm
  case h_1 rest _ =>
    split at hm
    · exact absurd hm List.not_mem_nil
    · split at hm
      · exact absurd hm List.not_mem_nil
      · rw [List.mem_singleton] at hm
        subst hm
        exact ⟨by simp [truthy, String.append_eq_empty_iff], nofun⟩
  case h_2 id _ =>
    split at hm
    · exact buckets_sound id m hm
    · split at hm
      · exact buckets_sound id m hm
      · have ⟨m', hm', he⟩ := List.mem_map.mp hm
        have h := buckets_sound id m' hm'
        exact ⟨he ▸ h.id, he ▸ h.pinned⟩

theorem prepared_host (hp : p ∈ preparedBlocks input) (hm : m ∈ p.messages) : HostMessage m := by
  have ⟨(block, i), _, he⟩ := List.mem_map.mp hp
  subst he
  exact preparePromptBlockMessages_host hm

end Assembly

section Merge

variable {history : List PromptMessage} {injections : List PreparedBlock}

theorem flatMap_getElem? {xs : List α} {n : Nat} :
    (List.range n).flatMap (fun i => xs[i]?.toList) = xs.take n := by
  induction n
  case zero      => rfl
  case succ n ih => rw [List.range_succ, List.flatMap_append, ih, List.take_add_one]; simp

theorem flatMap_filter {p : α → Bool} {f : α → List β} {xs : List α} :
    (xs.filter p).flatMap f = xs.flatMap fun x => if p x then f x else [] := by
  induction xs
  case nil => rfl
  case cons x xs ih => cases h : p x <;> simp [h, ih]

theorem insertionsAt_perm {boundary : Nat} :
    (((insertionsAt history injections boundary).mergeSort Insertion.le).map (·.message)).Perm
      ((injections.filter (boundaryOf history · = boundary)).flatMap (·.messages)) := by
  refine ((List.mergeSort_perm ..).map _).trans ?_
  simp [insertionsAt, List.map_flatMap, Function.comp_def]

theorem flatMap_single {c n : Nat} {ys : List β} :
    ((List.range n).flatMap fun i => if c = i then ys else []) = if c < n then ys else [] := by
  induction n
  case zero => rfl
  case succ n ih =>
    rw [List.range_succ, List.flatMap_append, ih]
    by_cases h : c = n
    · simp [h]
    · have : c < n + 1 ↔ c < n := by omega
      simp [h, this]

-- The messages of an element go to one place each.
theorem flatMap_places {f : α → Nat} {g : α → List β} {xs : List α} {n : Nat}
    (h : ∀ x ∈ xs, f x < n) :
    ((List.range n).flatMap fun i => (xs.filter (f · = i)).flatMap g).Perm (xs.flatMap g) := by
  induction xs
  case nil => simp
  case cons x xs ih =>
    have hx : ((List.range n).flatMap fun i => if f x = i then g x else []) = g x := by
      rw [flatMap_single, if_pos <| h x List.mem_cons_self]
    have hs : (fun i => ((x :: xs).filter (f · = i)).flatMap g) =
        fun i => (if f x = i then g x else []) ++ (xs.filter (f · = i)).flatMap g := by
      funext i
      by_cases hi : f x = i <;> simp [hi]
    rw [hs, List.flatMap_cons]
    refine (List.flatMap_append_perm ..).symm.trans ?_
    rw [hx]
    exact (ih fun y hy => h y <| List.mem_cons_of_mem _ hy).append_left _

-- Merging loses no message and adds none.
theorem mergeInChatPrompts_perm : (mergeInChatPrompts history injections).Perm
    (injections.flatMap (·.messages) ++ history) := by
  unfold mergeInChatPrompts
  refine (List.flatMap_append_perm ..).symm.trans ?_
  rw [flatMap_getElem?, List.take_of_length_le (Nat.le_succ _)]
  refine List.Perm.append_right _ ?_
  refine (List.Perm.flatMap_left _ fun boundary _ => insertionsAt_perm).trans ?_
  exact flatMap_places fun p _ => by
    unfold boundaryOf
    omega

end Merge

-- The messages of the blocks that take part in a prompt.
def activeMessages (journal : List PromptAuditJournalItem) : List PromptMessage :=
  (journal.filter (·.exclusionReason = .none)).map (·.message)

section Assembly

variable {input : PromptInput}

theorem activeMessages_journalOf {p : PreparedBlock} :
    activeMessages (journalOf p) = if p.active then p.messages else [] := by
  have hr : exclusionReasonForBlock p ≠ .none := by
    unfold exclusionReasonForBlock
    split <;> decide
  unfold activeMessages journalOf
  cases hm : p.messages
  case nil  => cases ha : p.active <;> simp [hr]
  case cons => cases ha : p.active <;> simp [hr, List.filter_map, Function.comp_def]

theorem activeMessages_journal : activeMessages (assemblePromptMessages input).journal =
    (preparedBlocks input).flatMap fun p => if p.active then p.messages else [] := by
  simp only [← activeMessages_journalOf, activeMessages, assemblePromptMessages]
  rw [List.filter_flatMap, List.map_flatMap]

theorem configuredBlocks_complete : CompleteBlocks (configuredBlocks input) := by
  have h : CompleteBlocks (promptTemplate input).blocks := by
    unfold promptTemplate
    split
    case h_1 => exact defaultPromptTemplate_complete
    case h_2 =>
      split
      case isTrue hr => exact normalizePromptBlockOrder_complete hr
      case isFalse   => exact defaultPromptTemplate_complete
  unfold configuredBlocks
  split
  case isTrue  => exact h
  case isFalse => exact defaultPromptTemplate_complete

-- One of the prepared blocks is the chat history.
theorem preparedBlocks_split : ∃ pre c post, preparedBlocks input = pre ++ c :: post ∧
    c.block.id = .core .chatHistory ∧ ∀ p ∈ pre ++ post, p.block.id ≠ .core .chatHistory := by
  have hb : (preparedBlocks input).map (·.block) = configuredBlocks input := by
    simp [preparedBlocks, prepareBlock, Function.comp_def, List.zipIdx_map_fst]
  have hc : CompleteBlocks (configuredBlocks input) := configuredBlocks_complete
  have hm : .core .chatHistory ∈ (preparedBlocks input).map (·.block.id) := by
    have := hc.chatHistory
    rwa [← hb, List.map_map] at this
  have hn : ((preparedBlocks input).map (·.block.id)).Nodup := by
    have := hc.nodup
    rwa [← hb, List.map_map] at this
  have ⟨c, hm, hi⟩ := List.mem_map.mp hm
  have ⟨pre, post, he⟩ := List.append_of_mem hm
  refine ⟨pre, c, post, he, hi, fun p hp hpi => ?_⟩
  rw [he, List.map_append, List.map_cons, List.nodup_middle, List.nodup_cons, ← List.map_append]
    at hn
  exact hn.left <| List.mem_map.mpr ⟨p, hp, hpi.trans hi.symm⟩

theorem inChat_ne (hp : p ∈ preparedBlocks input) (hi : p.inChat) :
    p.block.id ≠ .core .chatHistory := by
  have ⟨(block, i), _, he⟩ := List.mem_map.mp hp
  subst he
  simp only [prepareBlock, Bool.and_eq_true, decide_eq_true_eq] at hi
  exact hi.left

-- The prompt is made of the messages of the blocks that take part in it.
theorem messages_perm : (assemblePromptMessages input).messages.Perm
    (activeMessages (assemblePromptMessages input).journal) := by
  let own (p : PreparedBlock) : List PromptMessage :=
    if p.block.id = .core .chatHistory then
      if p.active then p.messages else []
    else if p.active && !p.inChat then p.messages else []
  let injected (p : PreparedBlock) : List PromptMessage :=
    if p.active && p.inChat then p.messages else []
  have hparts : activeMessages (assemblePromptMessages input).journal =
      (preparedBlocks input).flatMap fun p => own p ++ injected p := by
    rw [activeMessages_journal]
    refine List.flatMap_congr fun p hp => ?_
    by_cases hc : p.block.id = .core .chatHistory
    case pos =>
      have hi : p.inChat = false := by
        cases hi : p.inChat
        case false => rfl
        case true  => exact absurd hc <| inChat_ne hp hi
      simp [own, injected, hc, hi]
    case neg => cases ha : p.active <;> cases hi : p.inChat <;> simp [own, injected, hc, ha, hi]
  have hmerged : (assemblePromptMessages input).messages.Perm
      ((preparedBlocks input).flatMap own ++ (preparedBlocks input).flatMap injected) := by
    have ⟨pre, c, post, hs, hc, hn⟩ := @preparedBlocks_split input
    have hother (ps : List PreparedBlock) (hp : ∀ p ∈ ps, p.block.id ≠ .core .chatHistory)
        (merged : PreparedBlock → List PromptMessage) :
        (ps.flatMap fun p => if p.block.id = .core .chatHistory then merged p
          else if p.active && !p.inChat then p.messages else []) = ps.flatMap own := by
      refine List.flatMap_congr fun p hm => ?_
      simp [own, hp p hm]
    simp only [assemblePromptMessages]
    rw [← flatMap_filter]
    generalize (preparedBlocks input).filter (fun p => p.active && p.inChat) = inChatBlocks
    rw [hs, List.flatMap_append, List.flatMap_append, List.flatMap_cons, List.flatMap_cons,
      hother pre fun p hp => hn p <| List.mem_append_left _ hp,
      hother post fun p hp => hn p <| List.mem_append_right _ hp, if_pos hc]
    have hown : own c = if c.active then c.messages else [] := by simp [own, hc]
    rw [hown]
    generalize (if c.active then c.messages else []) = history
    refine List.perm_iff_count.mpr fun m => ?_
    have hm : (mergeInChatPrompts history inChatBlocks).count m =
        (inChatBlocks.flatMap PreparedBlock.messages ++ history).count m :=
      mergeInChatPrompts_perm.count_eq m
    simp only [List.count_append] at hm ⊢
    omega
  rw [hparts]
  exact hmerged.trans <| List.flatMap_append_perm ..

end Assembly
end Prompt
