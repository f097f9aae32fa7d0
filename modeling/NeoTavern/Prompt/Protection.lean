import NeoTavern.Prompt.Audit

namespace Prompt

theorem filter_truthy {s : Option String} : s.filter (· ≠ "") = some i ↔ s = some i ∧ i ≠ "" := by
  rw [Option.filter_eq_some_iff, decide_eq_true_eq]

section ById

variable {ms : List PromptMessage} {i : String} {m : PromptMessage}

theorem mem_of_byId (h : byId ms i = some m) : m ∈ ms ∧ m.id = some i :=
  ⟨List.mem_reverse.mp <| List.mem_of_find?_eq_some h, by simpa using List.find?_some h⟩

theorem byId_isSome (h : m ∈ ms) (hi : m.id = some i) : ∃ m', byId ms i = some m' := by
  cases hb : byId ms i
  case none =>
    have := List.find?_eq_none.mp hb m <| List.mem_reverse.mpr h
    simp [hi] at this
  case some m' => exact ⟨m', rfl⟩

end ById

section Dedupe

variable {ms : List PromptMessage} {seenIds : List String} {seenObjects : List Nat}

theorem dedupeLoop_sublist : (dedupeLoop seenIds seenObjects ms).Sublist ms := by
  induction ms generalizing seenIds seenObjects
  case nil => exact .slnil
  case cons m ms ih =>
    rw [dedupeLoop]
    split <;> split
    · exact ih.cons _
    · exact ih.cons_cons _
    · exact ih.cons _
    · exact ih.cons_cons _

theorem dedupeLoop_id (hm : m ∈ ms) (hi : m.id = some i) (hn : i ≠ "") :
    i ∈ seenIds ∨ ∃ m' ∈ dedupeLoop seenIds seenObjects ms, m'.id = some i := by
  induction ms generalizing seenIds seenObjects
  case nil => exact absurd hm List.not_mem_nil
  case cons m₀ ms ih =>
    rw [dedupeLoop]
    rcases List.mem_cons.mp hm with rfl | hm
    case inl =>
      rw [filter_truthy.mpr ⟨hi, hn⟩]
      dsimp only
      split
      case isTrue h => exact .inl h
      case isFalse  => exact .inr ⟨_, List.mem_cons_self, hi⟩
    case inr =>
      split <;> split
      case h_1.isTrue => exact ih hm
      case h_1.isFalse id hid _ =>
        have := @ih (id :: seenIds) seenObjects hm
        rcases this with h | ⟨m', hm', hi'⟩
        · rcases List.mem_cons.mp h with rfl | h
          · exact .inr ⟨_, List.mem_cons_self, (filter_truthy.mp hid).left⟩
          · exact .inl h
        · exact .inr ⟨m', List.mem_cons_of_mem _ hm', hi'⟩
      case h_2.isTrue => exact ih hm
      case h_2.isFalse =>
        have := @ih seenIds (m₀.object :: seenObjects) hm
        rcases this with h | ⟨m', hm', hi'⟩
        · exact .inl h
        · exact .inr ⟨m', List.mem_cons_of_mem _ hm', hi'⟩

example : (dedupeLoop [] [] [{ id := "m", role := .user, content := "a" }, { id := "m", role := .user, content := "b" }]).length = 1 := by
  decide +kernel

end Dedupe

section Restore

variable {original output : List PromptMessage} {presentIds : List String} {m : PromptMessage}

theorem mem_restoreMessage : m' ∈ restoreMessage output presentIds m following ↔
    m' = m ∨ m' ∈ output := by
  unfold restoreMessage
  dsimp only
  split
  · rw [List.mem_insertIdx List.findIdx_le_length]
  · rw [List.mem_insertIdx le_rfl]

theorem mem_restoreLoop (h : m ∈ restoreLoop original output presentIds) :
    m ∈ output ∨ m ∈ original := by
  induction original generalizing output presentIds
  case nil => exact .inl h
  case cons p following ih =>
    rw [restoreLoop] at h
    split at h
    · exact (ih h).imp_right <| List.mem_cons_of_mem _
    · split at h
      · exact (ih h).imp_right <| List.mem_cons_of_mem _
      · rcases ih h with h | h
        · rcases mem_restoreMessage.mp h with rfl | h
          · exact .inr List.mem_cons_self
          · exact .inl h
        · exact .inr <| List.mem_cons_of_mem _ h

theorem subset_restoreLoop : output ⊆ restoreLoop original output presentIds := by
  induction original generalizing output presentIds
  case nil => exact List.Subset.refl _
  case cons p following ih =>
    rw [restoreLoop]
    split
    · exact ih
    · split
      · exact ih
      · exact fun m hm => ih <| mem_restoreMessage.mpr <| .inr hm

-- After the loop, every protected message of the original list is there under its identifier.
theorem restoreLoop_id (hm : m ∈ original) (hp : isHostProtected m) (hi : m.id = some i)
    (hn : i ≠ "") (ho : ∀ i ∈ presentIds, ∃ m' ∈ output, m'.id = some i) :
    ∃ m' ∈ restoreLoop original output presentIds, m'.id = some i := by
  induction original generalizing output presentIds
  case nil => exact absurd hm List.not_mem_nil
  case cons p following ih =>
    rw [restoreLoop]
    rcases List.mem_cons.mp hm with rfl | hm
    case inl =>
      simp only [hi]
      split
      case isTrue h =>
        have hpre : i ∈ presentIds := by simpa [hn, hp] using h
        have ⟨m', hm', hi'⟩ := ho i hpre
        exact ⟨m', subset_restoreLoop hm', hi'⟩
      case isFalse =>
        exact ⟨m, subset_restoreLoop <| mem_restoreMessage.mpr <| .inl rfl, hi⟩
    case inr =>
      split
      · exact ih hm ho
      · split
        · exact ih hm ho
        · refine ih hm fun j hj => ?_
          rcases List.mem_append.mp hj with hj | hj
          · have ⟨m', hm', hi'⟩ := ho j hj
            exact ⟨m', mem_restoreMessage.mpr <| .inr hm', hi'⟩
          · obtain rfl := List.mem_singleton.mp hj
            exact ⟨p, mem_restoreMessage.mpr <| .inl rfl, by assumption⟩

end Restore

-- Each protected message of the assembly is there under its identifier, and whatever has that
-- identifier is pinned.
def Protects (raw ms : List PromptMessage) : Prop :=
  ∀ p ∈ raw, isHostProtected p → (∃ m ∈ ms, m.id = p.id) ∧ ∀ m ∈ ms, m.id = p.id → m.pinned

section Protects

variable {input : PipelineInput} {raw host ms : List PromptMessage}

theorem isHostProtected_pinned (h : HostMessage p) (hp : isHostProtected p) : p.pinned := by
  unfold isHostProtected at hp
  rcases Bool.or_eq_true .. |>.mp hp with hp | hp
  · exact hp
  · exact h.pinned <| by simpa using (Bool.and_eq_true .. |>.mp hp).right

theorem isProtectedMessage_of_pinned (h : m.pinned) : isProtectedMessage m := by
  simp [isProtectedMessage, h]

theorem truthy_iff : truthy s ↔ ∃ i, s = some i ∧ i ≠ "" := by
  cases s <;> simp [truthy]

theorem shift_protects (h : Protects raw ms) : Protects raw (shift input ms).kept := by
  intro p hp hh
  have ⟨⟨m, hm, hi⟩, hall⟩ := h p hp hh
  have hpin := isProtectedMessage_of_pinned <| hall m hm hi
  exact ⟨⟨m, mem_kept hm hpin, hi⟩, fun m hm => hall m <| kept_sublist.subset hm⟩

variable (hr : ∀ p ∈ raw, HostMessage p)

theorem strategyResult_ids (hp : p ∈ raw) (hh : isHostProtected p) (hi : p.id = some i) :
    ∃ m ∈ (strategyResult input raw).kept, m.id = some i := by
  unfold strategyResult
  dsimp only
  split
  case isTrue =>
    have hpro : isProtectedMessage p := by
      unfold isHostProtected at hh
      unfold isProtectedMessage
      grind
    exact ⟨p, mem_kept hp hpro, hi⟩
  case isFalse hn =>
    rw [Bool.not_eq_true, List.any_eq_false] at hn
    have hm := hn i <| List.mem_filterMap.mpr ⟨p, List.mem_filter.mpr ⟨hp, hh⟩, hi⟩
    simp only [decide_not, Bool.not_eq_true, Bool.not_eq_false', decide_eq_true_eq] at hm
    exact List.mem_filterMap.mp hm

include hr

omit hr in
theorem hostVersion_id : (hostVersion raw m).id = m.id := by
  unfold hostVersion
  split
  case h_2 => rfl
  case h_1 i hi =>
    cases hb : byId (raw.filter isHostProtected) i
    case none   => rfl
    case some k => exact (mem_of_byId hb).right.trans (filter_truthy.mp hi).left.symm

theorem hostVersion_pinned (hp : p ∈ raw) (hh : isHostProtected p) (hi : m.id = p.id) :
    (hostVersion raw m).pinned := by
  have ⟨i, hpi, hn⟩ := truthy_iff.mp (hr p hp).id
  have ⟨q, hq⟩ : ∃ q, byId (raw.filter isHostProtected) i = some q :=
    byId_isSome (List.mem_filter.mpr ⟨hp, hh⟩) hpi
  have ⟨hqm, hqh⟩ := List.mem_filter.mp (mem_of_byId hq).left
  rw [hostVersion, filter_truthy.mpr ⟨hi.trans hpi, hn⟩]
  simpa [hq] using isHostProtected_pinned (hr q hqm) hqh

theorem sanitized_protects : Protects raw (sanitizedStrategyMessages input raw) := by
  intro p hp hh
  have ⟨i, hi, hn⟩ := truthy_iff.mp (hr p hp).id
  unfold sanitizedStrategyMessages
  constructor
  case left =>
    have ⟨m, hm, hmi⟩ : ∃ m ∈ (strategyResult input raw).kept, m.id = some i :=
      strategyResult_ids hp hh hi
    have hm : hostVersion raw m ∈ (strategyResult input raw).kept.map (hostVersion raw) :=
      List.mem_map_of_mem hm
    rcases dedupeLoop_id hm (hostVersion_id.trans hmi) hn with h | h
    · exact absurd h List.not_mem_nil
    · exact hi ▸ h
  case right =>
    intro m hm hmi
    have ⟨m', _, he⟩ := List.mem_map.mp <| dedupeLoop_sublist.subset hm
    subst he
    exact hostVersion_pinned hr hp hh <| hostVersion_id.symm.trans hmi

theorem initialShift_protects : Protects raw (initialShift input raw).kept :=
  shift_protects <| sanitized_protects hr

-- No hook can take the protection away.
theorem applyInterceptor_protects (hk : Protects raw host) (hw : Protects raw working) :
    Protects raw (applyInterceptor input host working interceptor) := by
  unfold applyInterceptor
  split
  case isFalse => exact hw
  case isTrue =>
    split
    case h_2 => exact hw
    case h_1 messages _ =>
      intro p hp hh
      have ⟨i, hi, hn⟩ := truthy_iff.mp (hr p hp).id
      have ⟨⟨k, hkm, hki⟩, hall⟩ := hk p hp hh
      rw [hi] at hki ⊢
      constructor
      case left =>
        have hkp : isHostProtected k := by simp [isHostProtected, hall k hkm (hi ▸ hki)]
        exact restoreLoop_id hkm hkp hki hn fun j hj => List.mem_filterMap.mp hj
      case right =>
        intro m hm hmi
        rcases mem_restoreLoop hm with hm | hm
        case inr => exact hall m hm (hi ▸ hmi)
        case inl =>
          have ⟨m', _, he⟩ := List.mem_map.mp hm
          unfold relabel at he
          split at he
          case h_1 j hj =>
            subst he
            cases hmi.symm.trans (filter_truthy.mp hj).left
            have ⟨q, hq⟩ := byId_isSome hkm hki
            have ⟨hqm, hqi⟩ := mem_of_byId hq
            simpa [hq] using hall q hqm (hi ▸ hqi)
          case h_2 hj =>
            subst he
            rw [filter_truthy.mpr ⟨hmi, hn⟩] at hj
            cases hj

theorem foldl_protects {is : List PipelineInterceptor} (hk : Protects raw host)
    (hw : Protects raw working) : Protects raw (is.foldl (applyInterceptor input host) working) := by
  induction is generalizing working
  case nil          => exact hw
  case cons i is ih => exact ih <| applyInterceptor_protects hr hk hw

end Protects
end Prompt
