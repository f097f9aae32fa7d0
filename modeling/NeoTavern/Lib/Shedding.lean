import Mathlib

-- Items are given up group by group, in a fixed order, until what is left is affordable.
namespace Shedding

variable {ι : Type} [DecidableEq ι]

def release (removed group : List ι) : List ι :=
  group.foldl (fun removed i => if i ∈ removed then removed else removed ++ [i]) removed

def shed (affordable : List ι → Bool) : List (List ι) → List ι → List ι
  | [],      removed => removed
  | g :: gs, removed =>
    if affordable removed then removed else shed affordable gs (release removed g)

section Release

variable {removed group : List ι} {i : ι}

@[simp]
theorem mem_release : i ∈ release removed group ↔ i ∈ removed ∨ i ∈ group := by
  induction group generalizing removed
  case nil => simp [release]
  case cons g gs ih =>
    have h : release removed (g :: gs) =
      release (if g ∈ removed then removed else removed ++ [g]) gs := rfl
    rw [h, ih, List.mem_cons]
    split
    case isTrue hg =>
      constructor
      case mp => exact Or.imp_right .inr
      case mpr =>
        rintro (hi | rfl | hi)
        · exact .inl hi
        · exact .inl hg
        · exact .inr hi
    case isFalse => rw [List.mem_append, List.mem_singleton, or_assoc]

example : release [1] [2, 1, 3] = [1, 2, 3] := by
  decide +kernel

theorem nodup_release (h : removed.Nodup) : (release removed group).Nodup := by
  induction group generalizing removed
  case nil => exact h
  case cons g gs ih =>
    have hr : release removed (g :: gs) =
      release (if g ∈ removed then removed else removed ++ [g]) gs := rfl
    rw [hr]
    apply ih
    split
    case isTrue     => exact h
    case isFalse hg =>
      rw [List.nodup_append_comm]
      exact List.nodup_cons.mpr ⟨hg, h⟩

end Release

section Shed

variable {affordable : List ι → Bool} {groups : List (List ι)} {removed : List ι} {i : ι}

theorem shed_of_affordable (h : affordable removed) : shed affordable groups removed = removed := by
  cases groups
  case nil  => rfl
  case cons => rw [shed, if_pos h]

theorem subset_shed : removed ⊆ shed affordable groups removed := by
  induction groups generalizing removed
  case nil => exact List.Subset.refl _
  case cons g gs ih =>
    rw [shed]
    split
    case isTrue  => exact List.Subset.refl _
    case isFalse => exact fun i hi => ih <| mem_release.mpr <| .inl hi

-- Only items of the groups are given up.
theorem shed_subset (h : i ∈ shed affordable groups removed) : i ∈ removed ∨ ∃ g ∈ groups, i ∈ g := by
  induction groups generalizing removed
  case nil => exact .inl h
  case cons g gs ih =>
    rw [shed] at h
    split at h
    case isTrue  => exact .inl h
    case isFalse =>
      rcases ih h with hr | ⟨g', hg, hi⟩
      · rcases mem_release.mp hr with hr | hg
        · exact .inl hr
        · exact .inr ⟨g, List.mem_cons_self, hg⟩
      · exact .inr ⟨g', List.mem_cons_of_mem _ hg, hi⟩

-- A group is given up whole.
theorem group_subset_shed (h : i ∈ shed affordable groups removed) :
    i ∈ removed ∨ ∃ g ∈ groups, i ∈ g ∧ g ⊆ shed affordable groups removed := by
  induction groups generalizing removed
  case nil          => exact .inl h
  case cons g gs ih =>
    rw [shed] at h ⊢
    split at h
    case isTrue       => exact .inl h
    case isFalse hnot =>
      rw [if_neg hnot]
      cases ih h
      case inr hg =>
        have ⟨g', hg', hi⟩ := hg
        exact .inr ⟨g', List.mem_cons_of_mem _ hg', hi⟩
      case inl hr =>
        cases mem_release.mp hr
        case inl hr => exact .inl hr
        case inr hg =>
          exact .inr ⟨g, List.mem_cons_self, hg, fun k hk => subset_shed <| mem_release.mpr <| .inr hk⟩

theorem nodup_shed (h : removed.Nodup) : (shed affordable groups removed).Nodup := by
  induction groups generalizing removed
  case nil => exact h
  case cons g gs ih =>
    rw [shed]
    split
    case isTrue  => exact h
    case isFalse => exact ih <| nodup_release h

-- If giving up more never makes things worse, shedding succeeds exactly if giving up everything does.
theorem affordable_shed (hm : ∀ r r', r ⊆ r' → affordable r → affordable r') :
    affordable (shed affordable groups removed) ↔ affordable (removed ++ groups.flatten) := by
  induction groups generalizing removed
  case nil => rw [shed, List.flatten_nil, List.append_nil]
  case cons g gs ih =>
    rw [shed, List.flatten_cons]
    split
    case isTrue h  => exact iff_of_true h <| hm _ _ (List.subset_append_left ..) h
    case isFalse h =>
      rw [ih]
      constructor
      case mp =>
        refine hm _ _ fun i hi => ?_
        simp only [List.mem_append, mem_release] at hi ⊢
        rwa [← or_assoc]
      case mpr =>
        refine hm _ _ fun i hi => ?_
        simp only [List.mem_append, mem_release] at hi ⊢
        rwa [or_assoc]

-- Without the last group that gives something up, what is left would not be affordable.
theorem shed_minimal (h : shed affordable groups removed ≠ removed) : ∃ before, ∃ g ∈ groups,
    shed affordable groups removed = release before g ∧ before ≠ release before g ∧ ¬affordable before := by
  induction groups generalizing removed
  case nil          => exact absurd rfl h
  case cons g gs ih =>
    rw [shed] at h ⊢
    split
    case isTrue ha  => exact absurd (if_pos ha) h
    case isFalse ha =>
      rw [if_neg ha] at h
      by_cases hrest : shed affordable gs (release removed g) = release removed g
      case pos =>
        rw [hrest] at h ⊢
        exact ⟨removed, g, List.mem_cons_self, rfl, h.symm, ha⟩
      case neg =>
        have ⟨before, g', hg', hbefore⟩ := ih hrest
        exact ⟨before, g', List.mem_cons_of_mem _ hg', hbefore⟩

-- Where it does not succeed, every group has been given up.
theorem subset_of_not_affordable (h : ¬affordable (shed affordable groups removed)) {g : List ι} (hg : g ∈ groups) :
    g ⊆ shed affordable groups removed := by
  induction groups generalizing removed
  case nil           => cases hg
  case cons g' gs ih =>
    rw [shed] at h ⊢
    split at h
    case isTrue ha  => exact absurd ha h
    case isFalse ha =>
      rw [if_neg ha]
      cases List.mem_cons.mp hg
      case inl heq =>
        subst heq
        exact fun i hi => subset_shed <| mem_release.mpr <| .inr hi
      case inr hg  => exact ih h hg

end Shed
end Shedding
