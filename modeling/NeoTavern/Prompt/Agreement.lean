import NeoTavern.Prompt.Runs

namespace Prompt

section Ids

variable {ms : List PromptMessage} {m m' : PromptMessage}

theorem hasIdOf_iff : hasIdOf ms m ↔ m.id ≠ none ∧ ∃ m' ∈ ms, m'.id = m.id := by
  cases h : m.id <;> simp [hasIdOf, idsOf, h]

theorem isAssembled_congr (h : m.id = m'.id) : isAssembled journal m = isAssembled journal m' := by
  simp [isAssembled, h]

theorem isAssembled_id (h : isAssembled journal m) : ∃ i, m.id = some i ∧ i ≠ "" :=
  truthy_iff.mp (Bool.and_eq_true .. |>.mp h).left

end Ids

section Kept

variable {input : PipelineInput} {working : List PromptMessage}

theorem mem_working : m ∈ working ↔
    m ∈ (shift input working).kept ∨ m ∈ (shift input working).excluded := by
  have hk : m ∈ (shift input working).kept ↔
      ∃ i, working[i]? = some m ∧ i ∉ removedBy input.countTokens working (promptBudget input) :=
    mem_remaining
  have hx : m ∈ (shift input working).excluded ↔
      ∃ i ∈ removedBy input.countTokens working (promptBudget input), working[i]? = some m :=
    List.mem_filterMap
  rw [hk, hx, List.mem_iff_getElem?]
  constructor
  case mp =>
    intro ⟨i, hi⟩
    by_cases hr : i ∈ removedBy input.countTokens working (promptBudget input)
    · exact .inr ⟨i, hr, hi⟩
    · exact .inl ⟨i, hi, hr⟩
  case mpr =>
    rintro (⟨i, hi, _⟩ | ⟨i, _, hi⟩)
    · exact ⟨i, hi⟩
    · exact ⟨i, hi⟩

end Kept

section Items

variable {excluded working : List PromptMessage} {finalShift : ContextShiftResult}
  {manual : List String} {item : PromptAuditJournalItem}

theorem currentMessage_id : (currentMessage working finalShift m).id = m.id := by
  unfold currentMessage
  split
  case h_2 => rfl
  case h_1 i hi =>
    have hm := (filter_truthy.mp hi).left
    cases hk : byId finalShift.kept i
    case some k => exact (mem_of_byId hk).right.trans hm.symm
    case none =>
      cases hw : byId working i
      case some w => exact (mem_of_byId hw).right.trans hm.symm
      case none   => rfl

-- The message that stands in an entry is the last one that was kept under the identifier.
theorem currentMessage_kept (hk : k ∈ finalShift.kept) (hi : k.id = m.id) (ht : truthy m.id) :
    currentMessage working finalShift m ∈ finalShift.kept := by
  have ⟨i, hm, hn⟩ := truthy_iff.mp ht
  have ⟨k', hb⟩ := byId_isSome hk <| hi.trans hm
  rw [currentMessage, filter_truthy.mpr ⟨hm, hn⟩]
  simpa [hb] using (mem_of_byId hb).left

theorem classifyItem_message : (classifyItem excluded working finalShift manual item).message =
    currentMessage working finalShift item.message := by
  unfold classifyItem
  repeat' split
  all_goals rfl

theorem classifyItem_included : (classifyItem excluded working finalShift manual item).included ↔
    item.exclusionReason = .none ∧ ¬hasIdOf excluded item.message ∧
      ¬hasIdOf finalShift.excluded item.message ∧ hasIdOf finalShift.kept item.message := by
  unfold classifyItem
  grind

theorem classifyItem_reason
    (h : (classifyItem excluded working finalShift manual item).exclusionReason = .none) :
    hasIdOf finalShift.kept item.message ∨
      hasIdOf working item.message ∧ ¬hasIdOf finalShift.excluded item.message := by
  unfold classifyItem at h
  grind

end Items

section Stages

variable (s : Stages)

-- The audit of a run agrees with its prompt: what it marks as included is what the prompt is made
-- of, and it gives one reason for each assembled message that the prompt lacks.
structure AuditAgrees (entries : List PromptContextAuditEntry) : Prop where
  included : ((entries.filter (·.included)).map (·.message)).Perm s.finalShift.kept
  left_out : ∀ m ∈ s.assembly.messages, (∀ k ∈ s.finalShift.kept, k.id ≠ m.id) →
    (entries.countP fun e => e.message.id = m.id && e.exclusionReason ≠ .none) = 1

def listed (m : PromptMessage) : Bool :=
  isAssembled s.assembly.journal m

-- The plugins have left the identifiers such that the messages of a run can be told by them.
structure Traceable : Prop where
  distinct : ((s.finalShift.kept.filter (listed s)).map (·.id)).Nodup
  active   : ∀ k ∈ s.finalShift.kept, listed s k → ∃ m ∈ s.assembly.messages, m.id = k.id
  fresh    : ∀ k ∈ s.finalShift.kept, listed s k → ∀ e ∈ s.initialShift.excluded, e.id ≠ k.id
  whole    : ∀ k ∈ s.finalShift.kept, k.id ≠ none → ∀ x ∈ s.finalShift.excluded, x.id ≠ k.id
  unlisted : ∀ k ∈ s.finalShift.kept, ¬listed s k → ∀ m ∈ s.assembly.messages, m.id = k.id →
    ∃ e ∈ s.initialShift.excluded, e.id = k.id

-- An assembled message that the prompt lacks is the only one of its identifier.
def LeftOutOnce : Prop :=
  ∀ m ∈ s.assembly.messages, (∀ k ∈ s.finalShift.kept, k.id ≠ m.id) →
    (∀ item ∈ s.assembly.journal, item.exclusionReason ≠ .none → item.message.id ≠ m.id) ∧
      (¬listed s m → ∀ x ∈ s.finalShift.excluded, x.id ≠ m.id)

end Stages

section Agreement

variable {input : PipelineInput} {s : Stages} {manual : List String}

-- What the journal contributes to the included entries.
def includedJournal (s : Stages) : List PromptMessage :=
  (activeMessages s.assembly.journal).filter (fun m => !hasIdOf s.initialShift.excluded m &&
    !hasIdOf s.finalShift.excluded m && hasIdOf s.finalShift.kept m)
    |>.map (currentMessage s.working s.finalShift)

-- The messages without an entry in the journal that count as included though they are not kept.
def includedExcluded (input : PipelineInput) (s : Stages) : List PromptMessage :=
  s.working.zipIdx.filter (fun (m, place) => !listed s m && hasIdOf s.finalShift.kept m &&
    place ∈ removedBy input.countTokens s.working (promptBudget input)) |>.map (·.fst)

theorem filter_classifyItem : ((s.assembly.journal.map
    (classifyItem s.initialShift.excluded s.working s.finalShift manual)).filter
      (·.included)).map (·.message) = includedJournal s := by
  unfold includedJournal activeMessages
  rw [List.filter_map, List.map_map, List.filter_map, List.map_map, List.filter_filter]
  have hf : ∀ item : PromptAuditJournalItem,
      (classifyItem s.initialShift.excluded s.working s.finalShift manual item).included =
        (!hasIdOf s.initialShift.excluded item.message &&
          !hasIdOf s.finalShift.excluded item.message && hasIdOf s.finalShift.kept item.message &&
          decide (item.exclusionReason = .none)) := by
    intro item
    rw [Bool.eq_iff_iff, classifyItem_included]
    grind
  simp only [Function.comp_def, hf, classifyItem_message]

theorem filter_classifyWorking (hf : s.finalShift = shift input s.working) :
    ((((s.working.zipIdx.filter fun (m, _) => !listed s m).map fun (m, place) =>
      classifyWorking (removedBy input.countTokens s.working (promptBudget input)) s.finalShift m
        place).filter (·.included)).map (·.message)).Perm
      (includedExcluded input s ++ s.finalShift.kept.filter fun m => !listed s m) := by
  have hk : (s.finalShift.kept.filter fun m => !listed s m) =
      (s.working.zipIdx.filter fun (m, place) => !listed s m &&
        place ∉ removedBy input.countTokens s.working (promptBudget input)).map (·.fst) := by
    rw [hf]
    simp only [shift, shiftContext, remaining, List.filter_map, List.filter_filter,
      Function.comp_def]
  rw [hk, includedExcluded, ← List.map_append, List.filter_map, List.map_map, List.filter_filter]
  apply List.Perm.map
  generalize removedBy input.countTokens s.working (promptBudget input) = removed
  refine (List.filter_append_perm (fun x => x.snd ∈ removed) _).symm.trans ?_
  rw [List.filter_filter, List.filter_filter]
  apply List.Perm.of_eq
  congr 2
  all_goals
    funext x
    simp only [Function.comp_apply, classifyWorking]
    grind

def classified (input : PipelineInput) (s : Stages) : List Classified :=
  classify s.initialShift.excluded s.working
    (removedBy input.countTokens s.working (promptBudget input)) s.finalShift
    (manualExcludedIds input) s.assembly.journal

theorem auditEntries_eq (hm : (pipelineResult input s).auditEntries.length < maxAuditEntries) :
    (pipelineResult input s).auditEntries =
      (classified input s).zipIdx.map fun (item, order) =>
        auditEntry input.countTokens item order := by
  have he : (pipelineResult input s).auditEntries =
      ((classified input s).take maxAuditEntries).zipIdx.map fun (item, order) =>
        auditEntry input.countTokens item order := rfl
  rw [he, List.length_map, List.length_zipIdx, List.length_take] at hm
  rw [he, List.take_of_length_le]
  omega

theorem classified_eq : classified input s =
    s.assembly.journal.map (classifyItem s.initialShift.excluded s.working s.finalShift
      (manualExcludedIds input)) ++
    (s.working.zipIdx.filter fun (m, _) => !listed s m).map fun (m, place) =>
      classifyWorking (removedBy input.countTokens s.working (promptBudget input)) s.finalShift m
        place :=
  rfl

variable (h : runStages input = .ok s)

include h

theorem finalShift_eq : s.finalShift = shift input s.working := by
  have ⟨_, _, _, _, hs⟩ := runStages_eq_ok.mp h
  rw [hs]
  rfl

theorem messages_active : s.assembly.messages.Perm (activeMessages s.assembly.journal) := by
  have ⟨_, _, _, _, hs⟩ := runStages_eq_ok.mp h
  subst hs
  exact messages_perm

theorem assembly_host : ∀ m ∈ s.assembly.messages, HostMessage m := by
  have ⟨_, _, _, _, hs⟩ := runStages_eq_ok.mp h
  subst hs
  exact messages_host

theorem mem_includedJournal : j ∈ includedJournal s ↔ ∃ m ∈ s.assembly.messages,
    ¬hasIdOf s.initialShift.excluded m ∧ ¬hasIdOf s.finalShift.excluded m ∧
      hasIdOf s.finalShift.kept m ∧ currentMessage s.working s.finalShift m = j := by
  simp [includedJournal, (messages_active h).mem_iff, and_assoc]

theorem nodup_includedJournal (hn : (s.assembly.messages.map (·.id)).Nodup) :
    ((includedJournal s).map (·.id)).Nodup := by
  have hn := ((messages_active h).map (·.id)).nodup_iff.mp hn
  have hi : (includedJournal s).map (·.id) = ((activeMessages s.assembly.journal).filter fun m =>
      !hasIdOf s.initialShift.excluded m && !hasIdOf s.finalShift.excluded m &&
        hasIdOf s.finalShift.kept m).map (·.id) := by
    simp [includedJournal, Function.comp_def, currentMessage_id]
  rw [hi]
  exact hn.sublist <| List.filter_sublist.map _

theorem mem_includedExcluded : x ∈ includedExcluded input s ↔
    x ∈ s.finalShift.excluded ∧ ¬listed s x ∧ hasIdOf s.finalShift.kept x := by
  have hx : x ∈ s.finalShift.excluded ↔
      ∃ i ∈ removedBy input.countTokens s.working (promptBudget input), s.working[i]? = some x := by
    rw [finalShift_eq h]
    exact List.mem_filterMap
  rw [hx]
  simp only [includedExcluded, List.mem_map, List.mem_filter, List.mem_zipIdx_iff_getElem?,
    Bool.and_eq_true, decide_eq_true_eq, Bool.not_eq_true', Bool.not_eq_true]
  constructor
  case mp =>
    rintro ⟨⟨m, place⟩, ⟨hw, ⟨hl, hk⟩, hr⟩, he⟩
    subst he
    exact ⟨⟨place, hr, hw⟩, hl, hk⟩
  case mpr =>
    rintro ⟨⟨place, hr, hw⟩, hl, hk⟩
    exact ⟨(x, place), ⟨hw, ⟨hl, hk⟩, hr⟩, rfl⟩

-- The included entries make up the prompt exactly if those of the journal, and no others, are its
-- listed messages.
theorem included_perm (hm : (pipelineResult input s).auditEntries.length < maxAuditEntries) :
    (((pipelineResult input s).auditEntries.filter (·.included)).map (·.message)).Perm
        s.finalShift.kept ↔
      (includedJournal s ++ includedExcluded input s).Perm (s.finalShift.kept.filter (listed s)) := by
  have he : ((pipelineResult input s).auditEntries.filter (·.included)).map (·.message) =
      ((classified input s).filter (·.included)).map (·.message) := by
    rw [auditEntries_eq hm, List.filter_map, List.map_map]
    conv_rhs => rw [← List.zipIdx_map_fst 0 (classified input s), List.filter_map, List.map_map]
    rfl
  rw [he, classified_eq, List.filter_append, List.map_append, filter_classifyItem]
  have hw := (filter_classifyWorking <| finalShift_eq h).append_left (includedJournal s)
  have hk := List.filter_append_perm (listed s) s.finalShift.kept
  rw [hw.congr_left, ← hk.congr_right, ← List.append_assoc, List.perm_append_right_iff]

theorem Traceable.of_perm (hn : (s.assembly.messages.map (·.id)).Nodup)
    (hp : (includedJournal s ++ includedExcluded input s).Perm (s.finalShift.kept.filter (listed s))) :
    Traceable s := by
  have hall : ∀ m ∈ includedJournal s ++ includedExcluded input s, listed s m := fun m hm =>
    (List.mem_filter.mp <| hp.mem_iff.mp hm).right
  have hx : includedExcluded input s = [] := by
    refine List.eq_nil_iff_forall_not_mem.mpr fun x hx => ?_
    have ⟨_, hl, _⟩ := (mem_includedExcluded h).mp hx
    exact hl <| hall x <| List.mem_append_right _ hx
  rw [hx, List.append_nil] at hp hall
  have hl : ∀ k ∈ s.finalShift.kept, listed s k → ∃ m ∈ s.assembly.messages, m.id = k.id ∧
      ¬hasIdOf s.initialShift.excluded m ∧ ¬hasIdOf s.finalShift.excluded m := by
    intro k hk hkl
    have hj := hp.mem_iff.mpr <| List.mem_filter.mpr ⟨hk, hkl⟩
    have ⟨m, hm, he, hx, _, hc⟩ := (mem_includedJournal h).mp hj
    exact ⟨m, hm, hc ▸ currentMessage_id.symm, he, hx⟩
  have hw : ∀ k ∈ s.finalShift.kept, k.id ≠ none → ∀ x ∈ s.finalShift.excluded, x.id ≠ k.id := by
    intro k hk hi x hxm hxi
    by_cases hkl : listed s k
    case pos =>
      have ⟨m, _, hmi, _, hmx⟩ := hl k hk hkl
      exact hmx <| hasIdOf_iff.mpr ⟨hmi ▸ hi, x, hxm, hxi.trans hmi.symm⟩
    case neg =>
      have hxl : ¬listed s x := by rwa [listed, isAssembled_congr hxi]
      have hxk : hasIdOf s.finalShift.kept x := hasIdOf_iff.mpr ⟨hxi ▸ hi, k, hk, hxi.symm⟩
      have := (mem_includedExcluded h).mpr ⟨hxm, hxl, hxk⟩
      rw [hx] at this
      exact List.not_mem_nil this
  constructor
  case distinct => exact (hp.map (·.id)).nodup_iff.mp <| nodup_includedJournal h hn
  case active =>
    intro k hk hkl
    have ⟨m, hm, hmi, _⟩ := hl k hk hkl
    exact ⟨m, hm, hmi⟩
  case fresh =>
    intro k hk hkl e he hei
    have ⟨m, _, hmi, hme, _⟩ := hl k hk hkl
    have ⟨_, hi, _⟩ := isAssembled_id hkl
    exact hme <| hasIdOf_iff.mpr ⟨by simp [hmi, hi], e, he, hei.trans hmi.symm⟩
  case whole => exact hw
  case unlisted =>
    intro k hk hkl m hm hmi
    by_contra hne
    have ⟨i, hi, _⟩ := truthy_iff.mp (assembly_host h m hm).id
    have hki : k.id ≠ none := by simp [← hmi, hi]
    have hme : ¬hasIdOf s.initialShift.excluded m := fun hh => by
      have ⟨_, e, he, hei⟩ := hasIdOf_iff.mp hh
      exact hne ⟨e, he, hei.trans hmi⟩
    have hmx : ¬hasIdOf s.finalShift.excluded m := fun hh => by
      have ⟨_, x, hx, hxi⟩ := hasIdOf_iff.mp hh
      exact hw k hk hki x hx <| hxi.trans hmi
    have hmk : hasIdOf s.finalShift.kept m := hasIdOf_iff.mpr ⟨hmi ▸ hki, k, hk, hmi.symm⟩
    have := hall _ <| (mem_includedJournal h).mpr ⟨m, hm, hme, hmx, hmk, rfl⟩
    rw [listed, isAssembled_congr (currentMessage_id.trans hmi)] at this
    exact hkl this

theorem Traceable.perm (hn : (s.assembly.messages.map (·.id)).Nodup) (ht : Traceable s) :
    (includedJournal s ++ includedExcluded input s).Perm (s.finalShift.kept.filter (listed s)) := by
  have hx : includedExcluded input s = [] := by
    refine List.eq_nil_iff_forall_not_mem.mpr fun x hx => ?_
    have ⟨hxm, _, hxk⟩ := (mem_includedExcluded h).mp hx
    have ⟨hi, k, hk, hki⟩ := hasIdOf_iff.mp hxk
    exact ht.whole k hk (hki ▸ hi) x hxm hki.symm
  rw [hx, List.append_nil,
    List.perm_ext_iff_of_nodup (nodup_includedJournal h hn).of_map ht.distinct.of_map]
  intro k
  rw [mem_includedJournal h, List.mem_filter]
  constructor
  case mp =>
    intro ⟨m, hm, he, hx, hmk, hc⟩
    have ⟨hi, k', hk', hki⟩ := hasIdOf_iff.mp hmk
    have hk : currentMessage s.working s.finalShift m ∈ s.finalShift.kept :=
      currentMessage_kept hk' hki (assembly_host h m hm).id
    rw [hc] at hk
    have hmi : m.id = k.id := hc ▸ currentMessage_id.symm
    refine ⟨hk, ?_⟩
    by_contra hkl
    have ⟨e, hem, hei⟩ := ht.unlisted k hk hkl m hm hmi
    exact he <| hasIdOf_iff.mpr ⟨hi, e, hem, hei.trans hmi.symm⟩
  case mpr =>
    intro ⟨hk, hkl⟩
    have ⟨m, hm, hmi⟩ := ht.active k hk hkl
    have ⟨_, hi, _⟩ := isAssembled_id hkl
    have hmn : m.id ≠ none := by simp [hmi, hi]
    refine ⟨m, hm, fun hh => ?_, fun hh => ?_, hasIdOf_iff.mpr ⟨hmn, k, hk, hmi.symm⟩, ?_⟩
    · have ⟨_, e, he, hei⟩ := hasIdOf_iff.mp hh
      exact ht.fresh k hk hkl e he <| hei.trans hmi
    · have ⟨_, x, hx, hxi⟩ := hasIdOf_iff.mp hh
      exact ht.whole k hk (hmi ▸ hmn) x hx <| hxi.trans hmi
    · have hc : currentMessage s.working s.finalShift m ∈ s.finalShift.kept :=
        currentMessage_kept hk hmi.symm (assembly_host h m hm).id
      have hci : (currentMessage s.working s.finalShift m).id = k.id := currentMessage_id.trans hmi
      have hcl : listed s (currentMessage s.working s.finalShift m) := by
        rwa [listed, isAssembled_congr hci]
      exact List.inj_on_of_nodup_map ht.distinct (List.mem_filter.mpr ⟨hc, hcl⟩)
        (List.mem_filter.mpr ⟨hk, hkl⟩) hci

theorem working_id (hk : ∀ k ∈ s.finalShift.kept, k.id ≠ i) :
    (∃ w ∈ s.working, w.id = i) ↔ ∃ x ∈ s.finalShift.excluded, x.id = i := by
  have hw : ∀ m, m ∈ s.working ↔ m ∈ s.finalShift.kept ∨ m ∈ s.finalShift.excluded := by
    rw [finalShift_eq h]
    exact fun _ => mem_working
  constructor
  case mp =>
    intro ⟨w, hm, hi⟩
    rcases (hw w).mp hm with hm | hm
    · exact absurd hi <| hk w hm
    · exact ⟨w, hm, hi⟩
  case mpr => exact fun ⟨x, hx, hi⟩ => ⟨x, (hw x).mpr <| .inr hx, hi⟩

-- Whatever has an identifier that nobody kept is given a reason.
theorem classifyItem_left_out (hk : ∀ k ∈ s.finalShift.kept, k.id ≠ item.message.id) :
    (classifyItem s.initialShift.excluded s.working s.finalShift manual item).exclusionReason
      ≠ .none := by
  intro hr
  rcases classifyItem_reason hr with hh | ⟨hw, hx⟩
  · have ⟨_, k, hkm, hi⟩ := hasIdOf_iff.mp hh
    exact hk k hkm hi
  · have ⟨hi, hw⟩ := hasIdOf_iff.mp hw
    exact hx <| hasIdOf_iff.mpr ⟨hi, (working_id h hk).mp hw⟩

theorem classifyWorking_left_out (hk : ∀ k ∈ s.finalShift.kept, k.id ≠ m.id)
    (hw : s.working[place]? = some m) :
    (classifyWorking (removedBy input.countTokens s.working (promptBudget input)) s.finalShift m
      place).exclusionReason ≠ .none := by
  have hk' : ¬hasIdOf s.finalShift.kept m := fun hh => by
    have ⟨_, k, hkm, hi⟩ := hasIdOf_iff.mp hh
    exact hk k hkm hi
  have hr : place ∈ removedBy input.countTokens s.working (promptBudget input) := by
    by_contra hr
    refine hk m ?_ rfl
    rw [finalShift_eq h]
    exact mem_remaining.mpr ⟨place, hw, hr⟩
  simp [classifyWorking, hk', hr]

-- How many entries give a reason for an identifier that nobody kept.
theorem count_left_out (hm : (pipelineResult input s).auditEntries.length < maxAuditEntries)
    (hk : ∀ k ∈ s.finalShift.kept, k.id ≠ i) :
    ((pipelineResult input s).auditEntries.countP fun e =>
        e.message.id = i && e.exclusionReason ≠ .none) =
      s.assembly.journal.countP (·.message.id = i) +
        s.working.countP fun w => !listed s w && w.id = i := by
  have he : ((pipelineResult input s).auditEntries.countP fun e =>
        e.message.id = i && e.exclusionReason ≠ .none) =
      (classified input s).countP fun c => c.message.id = i && c.exclusionReason ≠ .none := by
    rw [auditEntries_eq hm, List.countP_map]
    conv_rhs => rw [← List.zipIdx_map_fst 0 (classified input s), List.countP_map]
    rfl
  have hw : (s.working.countP fun w => !listed s w && w.id = i) =
      s.working.zipIdx.countP fun (w, _) => !listed s w && w.id = i := by
    conv_lhs => rw [← List.zipIdx_map_fst 0 s.working, List.countP_map]
    rfl
  rw [he, hw, classified_eq, List.countP_append, List.countP_map, List.countP_map,
    List.countP_filter]
  congr 1
  case e_a =>
    refine List.countP_congr fun item _ => ?_
    simp only [Function.comp_apply, classifyItem_message, currentMessage_id, Bool.and_eq_true,
      decide_eq_true_eq, and_iff_left_iff_imp]
    exact fun hi => classifyItem_left_out h (hi ▸ hk)
  case e_a =>
    refine List.countP_congr fun (w, place) hw => ?_
    have hw := List.mem_zipIdx_iff_getElem?.mp hw
    have hr : w.id = i → _ := fun hi => classifyWorking_left_out h (hi ▸ hk) hw
    have hc : (classifyWorking (removedBy input.countTokens s.working (promptBudget input))
      s.finalShift w place).message = w := rfl
    simp only [Function.comp_apply, hc, Bool.and_eq_true, decide_eq_true_eq]
    grind

theorem count_active (hn : (s.assembly.messages.map (·.id)).Nodup) (hm : m ∈ s.assembly.messages) :
    (s.assembly.journal.filter (·.exclusionReason = .none)).countP (·.message.id = m.id) = 1 := by
  have hc := List.count_eq_one_of_mem hn <| List.mem_map_of_mem hm
  rw [List.count, List.countP_map, (messages_active h).countP_eq, activeMessages, List.countP_map]
    at hc
  rw [← hc]
  refine List.countP_congr fun item _ => ?_
  simp

theorem left_out_iff (hcap : (pipelineResult input s).auditEntries.length < maxAuditEntries)
    (hn : (s.assembly.messages.map (·.id)).Nodup) (hm : m ∈ s.assembly.messages)
    (hk : ∀ k ∈ s.finalShift.kept, k.id ≠ m.id) :
    ((pipelineResult input s).auditEntries.countP fun e =>
        e.message.id = m.id && e.exclusionReason ≠ .none) = 1 ↔
      (∀ item ∈ s.assembly.journal, item.exclusionReason ≠ .none → item.message.id ≠ m.id) ∧
        (¬listed s m → ∀ x ∈ s.finalShift.excluded, x.id ≠ m.id) := by
  rw [count_left_out h hcap hk,
    List.countP_eq_countP_filter_add _ _ fun item => item.exclusionReason = .none,
    count_active h hn hm]
  have hj : (s.assembly.journal.filter fun item => !decide (item.exclusionReason = .none)).countP
      (·.message.id = m.id) = 0 ↔
        ∀ item ∈ s.assembly.journal, item.exclusionReason ≠ .none → item.message.id ≠ m.id := by
    simp [List.countP_eq_zero]
  have hw : (s.working.countP fun w => !listed s w && w.id = m.id) = 0 ↔
      (¬listed s m → ∀ x ∈ s.finalShift.excluded, x.id ≠ m.id) := by
    rw [List.countP_eq_zero]
    constructor
    case mp =>
      intro hall hl x hx hi
      have ⟨w, hw, hwi⟩ := (working_id h hk).mpr ⟨x, hx, hi⟩
      refine hall w hw ?_
      rw [listed, isAssembled_congr hwi]
      simpa [hwi, listed] using hl
    case mpr =>
      intro hall w hw hb
      simp only [Bool.and_eq_true, Bool.not_eq_true', decide_eq_true_eq] at hb
      have hl : ¬listed s m := by
        rw [listed, ← isAssembled_congr hb.right]
        simpa [listed] using hb.left
      have ⟨x, hx, hi⟩ := (working_id h hk).mp ⟨w, hw, hb.right⟩
      exact hall hl x hx hi
  rw [← hj, ← hw]
  omega

end Agreement

-- The audit of a run agrees with its prompt exactly if the plugins left the identifiers in order.
theorem audit_agrees_iff {input : PipelineInput} (h : runPromptPipeline input = .ok result)
    (hn : ((assemblePromptMessages input.toPromptInput).messages.map (·.id)).Nodup)
    (hcap : result.auditEntries.length < maxAuditEntries) :
    ∃ s, runStages input = .ok s ∧ result = pipelineResult input s ∧
      (AuditAgrees s result.auditEntries ↔ Traceable s ∧ LeftOutOnce s) := by
  have ⟨s, hs, hr⟩ := runPromptPipeline_eq_ok.mp h
  have hn : (s.assembly.messages.map (·.id)).Nodup := by
    have ⟨_, _, _, _, he⟩ := runStages_eq_ok.mp hs
    rw [he]
    exact hn
  subst hr
  refine ⟨s, hs, rfl, ?_⟩
  constructor
  case mp =>
    intro ha
    constructor
    case left  => exact Traceable.of_perm hs hn <| (included_perm hs hcap).mp ha.included
    case right => exact fun m hm hk => (left_out_iff hs hcap hn hm hk).mp <| ha.left_out m hm hk
  case mpr =>
    intro ⟨ht, ho⟩
    constructor
    case included => exact (included_perm hs hcap).mpr <| ht.perm hs hn
    case left_out => exact fun m hm hk => (left_out_iff hs hcap hn hm hk).mpr <| ho m hm hk

namespace Sample

-- The first message is over the budget.
def tight : PipelineInput where
  history := [
    { id := ⟨"m1", (by decide : ¬"m1" = "")⟩, role := .user, content := "remember" },
    { id := ⟨"m2", by decide⟩, role := .user, content := "hi" }
  ]
  maxContextTokens := some 20
  reserveForReply  := some 8
  countTokens      := String.length

-- A hook that puts a shorter version of the first message back.
def readd : PipelineInterceptor where
  id := "recall"
  intercept messages := some <| { id := "m1", role := .user, content := "x" } :: messages

def recalled : PipelineInput :=
  { tight with interceptors := [readd] }

def recalledRun : PipelineResult :=
  pipelineResult recalled (stagesOf recalled)

theorem recalled_runs : runStages recalled = .ok (stagesOf recalled) := by
  refine runStages_eq_ok.mpr ⟨by decide, fun _ _ => rfl, ?_, ?_, rfl⟩
  all_goals decide +kernel

end Sample

open Sample in
theorem audit_agrees_iff_recalled : ∃ s, runStages recalled = .ok s ∧
    recalledRun = pipelineResult recalled s ∧
      (AuditAgrees s recalledRun.auditEntries ↔ Traceable s ∧ LeftOutOnce s) :=
  have h : runPromptPipeline recalled = .ok recalledRun :=
    runPromptPipeline_eq_ok.mpr ⟨_, recalled_runs, rfl⟩
  audit_agrees_iff h (by decide +kernel) (by decide +kernel)

-- The prompt has the message that the hook has put back, and the audit says that it was dropped.
open Sample in
theorem readded_not_audited : runPromptPipeline recalled = .ok recalledRun ∧
    runStages recalled = .ok (stagesOf recalled) ∧
    ((assemblePromptMessages recalled.toPromptInput).messages.map (·.id)).Nodup ∧
    recalledRun.auditEntries.length < maxAuditEntries ∧
    (stagesOf recalled).finalShift.kept.map (·.id) = [some "m1", some "m2"] ∧
    (recalledRun.auditEntries.filter (·.included)).map (·.identifier) = ["m2"] ∧
    ¬AuditAgrees (stagesOf recalled) recalledRun.auditEntries := by
  refine ⟨runPromptPipeline_eq_ok.mpr ⟨_, recalled_runs, rfl⟩, recalled_runs, ?_, ?_, ?_, ?_,
    fun ha => absurd ha.included.length_eq ?_⟩
  all_goals decide +kernel

end Prompt
