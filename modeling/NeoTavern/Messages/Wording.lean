import Mathlib

-- What a message says and said: its active text, the variants beside it by position and the texts
-- of its former edits by number.
@[ext]
structure Wording where
  content              : String
  active               : Option Nat
  variantCount         : Nat
  variants             : Nat → Option String
  contentRevisionCount : Nat
  contentRevisions     : Nat → Option String
  revision             : Nat

namespace Wording

open Function

def fresh (text : String) : Wording where
  content              := text
  active               := some 0
  variantCount         := 1
  variants             := fun _ => none
  contentRevisionCount := 0
  contentRevisions     := fun _ => none
  revision             := 1

def touch (w : Wording) : Wording :=
  { w with revision := w.revision + 1 }

-- A new text. The old one becomes the next content revision.
def edit (w : Wording) (text : String) : Wording := { w with
  content              := text
  contentRevisionCount := w.contentRevisionCount + 1
  contentRevisions     := update w.contentRevisions w.contentRevisionCount (some w.content)
  revision             := w.revision + 1
}

-- The text and the variant at a position change places.
def swipe (w : Wording) (position : Nat) (text : String) : Wording := { w with
  content  := text
  active   := some position
  variants := update (update w.variants (w.active.getD 0) (some w.content)) position none
  revision := w.revision + 1
}

-- A new text at a new position, with `archived` at the old one.
def regenerate (w : Wording) (archived text : String) : Wording := { w with
  content      := text
  active       := some w.variantCount
  variantCount := w.variantCount + 1
  variants     := update w.variants (w.active.getD 0) (some archived)
  revision     := w.revision + 1
}

inductive Step (w : Wording) : Wording → Prop
  | touch                                              : Step w w.touch
  | edit                                               : Step w (w.edit text)
  | swipe (ht : w.variants position = some text)       : Step w (w.swipe position text)
  | regenerate                                         : Step w (w.regenerate archived text)

theorem Step.revision (h : Step w w') : w'.revision = w.revision + 1 := by
  cases h <;> rfl

-- The positions of the variants fill `0 … variantCount - 1` but for the active one, and the content
-- revisions are numbered from zero.
structure WellFormed (w : Wording) : Prop where
  active           : ∃ a < w.variantCount, w.active = some a
  variants         : ∀ p, (w.variants p).isSome ↔ p < w.variantCount ∧ w.active ≠ some p
  contentRevisions : ∀ p, (w.contentRevisions p).isSome ↔ p < w.contentRevisionCount

namespace WellFormed

variable {w : Wording}

theorem fresh (text : String) : (fresh text).WellFormed where
  active           := ⟨0, Nat.one_pos, rfl⟩
  variants         := by
    intro p
    simp only [Wording.fresh, Option.isSome_none, Bool.false_eq_true, false_iff, not_and, not_not]
    intro hp
    rw [Nat.lt_one_iff.mp hp]
  contentRevisions := by simp [Wording.fresh]

theorem touch (h : w.WellFormed) : w.touch.WellFormed :=
  ⟨h.active, h.variants, h.contentRevisions⟩

theorem edit (h : w.WellFormed) : (w.edit text).WellFormed where
  active           := h.active
  variants         := h.variants
  contentRevisions := by
    intro p
    by_cases hp : p = w.contentRevisionCount
    case pos => simp [Wording.edit, hp]
    case neg =>
      simp only [Wording.edit, update_of_ne hp, h.contentRevisions]
      omega

theorem swipe (h : w.WellFormed) (ht : w.variants position = some text) :
    (w.swipe position text).WellFormed := by
  have ⟨a, ha, he⟩ := h.active
  have hp := h.variants position |>.mp (by simp [ht])
  refine ⟨⟨position, hp.left, rfl⟩, fun p => ?_, h.contentRevisions⟩
  by_cases hpp : p = position
  case pos => simp [Wording.swipe, hpp]
  case neg =>
    by_cases hpa : p = a
    case pos => simp [Wording.swipe, he, hpa, ha, Ne.symm (hpa ▸ hpp), update_of_ne (hpa ▸ hpp)]
    case neg => simp [Wording.swipe, he, h.variants, hpp, hpa, Ne.symm hpp, Ne.symm hpa]

theorem regenerate (h : w.WellFormed) : (w.regenerate archived text).WellFormed := by
  have ⟨a, ha, he⟩ := h.active
  refine ⟨⟨_, Nat.lt_succ_self _, rfl⟩, fun p => ?_, h.contentRevisions⟩
  by_cases hpa : p = a
  case pos =>
    have : w.variantCount ≠ a := by omega
    simp [Wording.regenerate, he, hpa, this]
    omega
  case neg =>
    have : some a ≠ some p := fun h => hpa (Option.some.inj h).symm
    simp only [Wording.regenerate, he, Option.getD_some, update_of_ne hpa, h.variants]
    simp only [ne_eq, Option.some.injEq, this, not_false_eq_true, and_true]
    omega

theorem step (h : w.WellFormed) (hs : Step w w') : w'.WellFormed := by
  cases hs
  case touch        => exact h.touch
  case edit         => exact h.edit
  case swipe ht     => exact h.swipe ht
  case regenerate   => exact h.regenerate

end WellFormed

def stored (w : Wording) : Set String :=
  { text | (∃ p, w.variants p = some text) ∨ ∃ p, w.contentRevisions p = some text }

def held (w : Wording) : Set String :=
  insert w.content w.stored

section Held

variable {w : Wording}

-- A text put at a free place joins the texts that are there.
theorem exists_update_iff {f : Nat → Option String} (hn : f k = none) :
    (∃ p, update f k (some text) p = some t) ↔ t = text ∨ ∃ p, f p = some t := by
  constructor
  case mp =>
    intro ⟨p, hp⟩
    by_cases hk : p = k
    case pos => exact .inl <| by simpa [hk, eq_comm] using hp
    case neg => exact .inr ⟨p, by rwa [update_of_ne hk] at hp⟩
  case mpr =>
    rintro (rfl | ⟨p, hp⟩)
    · exact ⟨k, update_self ..⟩
    · have hk : p ≠ k := by
        rintro rfl
        simp [hn] at hp
      exact ⟨p, by rwa [update_of_ne hk]⟩

theorem WellFormed.active_free (h : w.WellFormed) : w.variants (w.active.getD 0) = none := by
  have ⟨a, _, ha⟩ := h.active
  have := h.variants a
  simpa [ha] using this

theorem WellFormed.next_free (h : w.WellFormed) :
    w.contentRevisions w.contentRevisionCount = none := by
  have := h.contentRevisions w.contentRevisionCount
  simpa using this

theorem edit_held (h : w.WellFormed) : (w.edit text).held = insert text w.held := by
  ext t
  simp only [held, stored, edit, Set.mem_insert_iff, Set.mem_ofPred_eq,
    exists_update_iff h.next_free]
  exact or_congr_right or_left_comm

theorem regenerate_held (h : w.WellFormed) :
    (w.regenerate archived text).held = insert text (insert archived w.stored) := by
  ext t
  simp only [held, stored, regenerate, Set.mem_insert_iff, Set.mem_ofPred_eq,
    exists_update_iff h.active_free, or_assoc]

theorem swipe_held (h : w.WellFormed) (ht : w.variants position = some text) :
    w.held ⊆ (w.swipe position text).held := by
  -- The old text goes to the active position, and only then is the place at `position` emptied.
  have hk : ∀ t, (∃ p, update w.variants (w.active.getD 0) (some w.content) p = some t) →
      t = text ∨ ∃ p, (w.swipe position text).variants p = some t := by
    intro t ⟨p, hp⟩
    by_cases hpp : p = position
    case neg => exact .inr ⟨p, by simpa [swipe, update_of_ne hpp] using hp⟩
    case pos =>
      have hpa : p ≠ w.active.getD 0 := by
        rintro rfl
        simp [← hpp, h.active_free] at ht
      rw [update_of_ne hpa, hpp, ht] at hp
      exact .inl (Option.some.inj hp).symm
  intro t hm
  simp only [held, stored, Set.mem_insert_iff, Set.mem_ofPred_eq] at hm ⊢
  rw [← or_assoc, ← exists_update_iff h.active_free] at hm
  rcases hm with hv | hr
  · rcases hk t hv with rfl | hv
    · exact .inl rfl
    · exact .inr <| .inl hv
  · exact .inr <| .inr hr

-- No step drops a text that was stored.
theorem Step.stored (h : w.WellFormed) (hs : Step w w') : w.stored ⊆ w'.held := by
  have hsh : w.stored ⊆ w.held := Set.subset_insert ..
  cases hs
  case touch      => exact hsh
  case edit       => exact (hsh.trans <| Set.subset_insert ..).trans (edit_held h).superset
  case swipe ht   => exact hsh.trans <| swipe_held h ht
  case regenerate =>
    rw [regenerate_held h]
    exact (Set.subset_insert ..).trans <| Set.subset_insert ..

-- A step other than a regeneration drops no text at all.
inductive Step.Careful (w : Wording) : Wording → Prop
  | touch                                              : Careful w w.touch
  | edit                                               : Careful w (w.edit text)
  | swipe (ht : w.variants position = some text)       : Careful w (w.swipe position text)

theorem Step.Careful.step (h : Careful w w') : Step w w' := by
  cases h
  case touch    => exact .touch
  case edit     => exact .edit
  case swipe ht => exact .swipe ht

theorem Step.Careful.held (hs : Careful w w') (h : w.WellFormed) : w.held ⊆ w'.held := by
  cases hs
  case touch    => exact Set.Subset.rfl
  case edit     => exact (Set.subset_insert ..).trans (edit_held h).superset
  case swipe ht => exact swipe_held h ht

theorem regenerate_content (h : w.WellFormed) : w.content ∈ (w.regenerate archived text).held ↔
    w.content = text ∨ w.content = archived ∨ w.content ∈ w.stored := by
  rw [regenerate_held h, Set.mem_insert_iff, Set.mem_insert_iff]

end Held
end Wording
