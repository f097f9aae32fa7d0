import Mathlib

-- The order of a binary heap, for the keys at its places. Behind the last place the key is the largest.
namespace HeapOrder

variable {κ : Type*} [LinearOrder κ] {k : ℕ → κ} {i j e t n : ℕ} {v : κ}

def parent (i : ℕ) : ℕ :=
  (i - 1) / 2

def IsHeap (k : ℕ → κ) : Prop :=
  ∀ j, 0 < j → k (parent j) ≤ k j

-- In order up to the key at `i`, which may be too small for its place.
structure Rises (k : ℕ → κ) (i : ℕ) : Prop where
  others   : ∀ j, 0 < j → j ≠ i → k (parent j) ≤ k j
  children : 0 < i → ∀ j, 0 < j → parent j = i → k (parent i) ≤ k j

-- In order up to the key at `e`, which may be too large for its place.
structure Sinks (k : ℕ → κ) (e : ℕ) : Prop where
  others   : ∀ j, 0 < j → parent j ≠ e → k (parent j) ≤ k j
  children : 0 < e → ∀ j, 0 < j → parent j = e → k (parent e) ≤ k j

theorem parent_lt (h : 0 < i) : parent i < i := by
  rw [parent]
  omega

theorem parent_eq_iff (h : 0 < j) : parent j = e ↔ j = 2 * e + 1 ∨ j = 2 * e + 2 := by
  rw [parent]
  omega

theorem IsHeap.root_le (h : IsHeap k) (i : ℕ) : k 0 ≤ k i := by
  induction i using Nat.strong_induction_on
  case h i ih =>
    by_cases hi : 0 < i
    case pos => exact (ih _ <| parent_lt hi).trans <| h i hi
    case neg => exact Nat.eq_zero_of_not_pos hi ▸ le_rfl

theorem Rises.isHeap (h : Rises k i) (hi : 0 < i → k (parent i) ≤ k i) : IsHeap k := by
  intro j hj
  by_cases he : j = i
  case pos => exact he ▸ hi (he ▸ hj)
  case neg => exact h.others j hj he

theorem Rises.swap (h : Rises k i) (hi : 0 < i) (hlt : k i < k (parent i)) :
    Rises (k ∘ Equiv.swap (parent i) i) (parent i) := by
  have hparent := parent_lt hi
  constructor
  case others =>
    intro j hj hne
    have hjparent := parent_lt hj
    simp only [Function.comp_apply, Equiv.swap_apply_def, hne, if_false]
    by_cases hji : j = i
    case pos =>
      subst hji
      simp [hlt.le]
    case neg =>
      have hother := h.others j hj hji
      rw [if_neg hji]
      split
      case isTrue hsibling => exact hlt.le.trans <| hsibling ▸ hother
      case isFalse         =>
        split
        case isTrue hchild => exact h.children hi j hj hchild
        case isFalse       => exact hother
  case children =>
    intro hpos j hj hchild
    have hgrand := parent_lt hpos
    have hfirst := h.others (parent i) hpos hparent.ne
    have hne : parent (parent i) ≠ i := (hgrand.trans hparent).ne
    have hjne : j ≠ parent i := fun he => absurd (parent_lt hj) (by rw [hchild, he]; exact lt_irrefl _)
    simp only [Function.comp_apply, Equiv.swap_apply_def, hgrand.ne, hne, hjne, if_false]
    by_cases hji : j = i
    case pos => simpa [hji] using hfirst
    case neg =>
      rw [if_neg hji]
      exact hfirst.trans <| hchild ▸ h.others j hj hji

theorem Sinks.isHeap (h : Sinks k e) (hleft : k e ≤ k (2 * e + 1)) (hright : k e ≤ k (2 * e + 2)) : IsHeap k := by
  intro j hj
  by_cases he : parent j = e
  case pos =>
    rw [he]
    obtain rfl | rfl := (parent_eq_iff hj).mp he
    · exact hleft
    · exact hright
  case neg => exact h.others j hj he

theorem Sinks.swap (h : Sinks k e) (ht : 0 < t) (hchild : parent t = e) (hle : k t ≤ k e)
    (hleast : ∀ j, 0 < j → parent j = e → k t ≤ k j) : Sinks (k ∘ Equiv.swap e t) t := by
  have het : e < t := hchild ▸ parent_lt ht
  constructor
  case others =>
    intro j hj hne
    have hjparent := parent_lt hj
    simp only [Function.comp_apply, Equiv.swap_apply_def, hne, if_false]
    by_cases hpe : parent j = e
    case pos =>
      rw [if_pos hpe]
      by_cases hjt : j = t
      case pos => simpa [hjt, het.ne'] using hle
      case neg => simpa [hjt, (hpe ▸ hjparent).ne'] using hleast j hj hpe
    case neg =>
      have hother := h.others j hj hpe
      have hjt : j ≠ t := fun he => hpe <| he ▸ hchild
      rw [if_neg hpe, if_neg hjt]
      split
      case isFalse   => exact hother
      case isTrue he =>
        subst he
        exact h.children hj t ht hchild
  case children =>
    intro _ j hj hj'
    have hjt : t < j := hj' ▸ parent_lt hj
    have hother := h.others j hj <| by rw [hj']; exact het.ne'
    simpa [Equiv.swap_apply_def, hchild, (het.trans hjt).ne', hjt.ne', hj'] using hother

section Bounded

variable {l : ℕ → WithTop κ} {v : WithTop κ}

-- A key behind the last place.
theorem IsHeap.rises (h : IsHeap l) (hend : ∀ j > n, l j = ⊤) : Rises (Function.update l n v) n := by
  constructor
  case others =>
    intro j hj hne
    rw [Function.update_of_ne hne]
    by_cases hp : parent j = n
    case pos => rw [hend j <| hp ▸ parent_lt hj]; exact le_top
    case neg => exact (Function.update_of_ne hp ..).symm ▸ h j hj
  case children =>
    intro _ j hj hp
    have hlt : n < j := hp ▸ parent_lt hj
    rw [Function.update_of_ne hlt.ne', hend j hlt]
    exact le_top

-- The last key at the root, and nothing at the last place.
theorem IsHeap.sinks (h : IsHeap l) (hend : ∀ j > n, l j = ⊤) :
    Sinks (Function.update (Function.update l 0 v) n ⊤) 0 := by
  constructor
  case children => exact fun h => absurd h <| lt_irrefl 0
  case others   =>
    intro j hj hp
    by_cases hjn : j = n
    case pos =>
      rw [hjn, Function.update_self]
      exact le_top
    case neg =>
      rw [Function.update_of_ne hjn, Function.update_of_ne hj.ne']
      by_cases hpn : parent j = n
      case pos =>
        rw [hend j <| hpn ▸ parent_lt hj]
        exact le_top
      case neg =>
        rw [Function.update_of_ne hpn, Function.update_of_ne hp]
        exact h j hj

end Bounded

end HeapOrder
