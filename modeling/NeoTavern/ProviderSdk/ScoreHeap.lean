import Mathlib
import NeoTavern.Lib.HeapOrder

-- The heap of merge scores. Its entries are in an array, the children of an entry at `2 * e + 1` and
-- `2 * e + 2`.
namespace ProviderSdk.ScoreHeap

open HeapOrder

variable {α κ : Type}

section Code

variable (less : α → α → Bool)

def greater (items : Array α) (a b : ℕ) : Bool :=
  match items[a]?, items[b]? with
  | some left, some right => less left right
  | _, _                  => false

def siftUpFrom (items : Array α) (i : ℕ) : Array α :=
  if 0 < i then
    let parent := (i - 1) / 2
    if !greater less items i parent then items else siftUpFrom (items.swapIfInBounds parent i) parent
  else
    items
termination_by i

-- The smaller one of the children that there are.
def child (items : Array α) (e : ℕ) : ℕ :=
  let left := 2 * e + 1
  let right := 2 * e + 2
  if right < items.size && greater less items right left then right else left

def siftDownFrom (items : Array α) (e : ℕ) : Array α :=
  let left := 2 * e + 1
  let right := 2 * e + 2
  let leftSmaller := left < items.size && greater less items left e
  let rightSmaller := right < items.size && greater less items right e
  if !leftSmaller && !rightSmaller then
    items
  else
    let t := child less items e
    siftDownFrom (items.swapIfInBounds e t) t
termination_by items.size - e
decreasing_by
  rename_i hsmaller
  have hlt : 2 * e + 1 < items.size := by
    by_contra hge
    have hright : ¬2 * e + 2 < items.size := by omega
    exact hsmaller <| by simp [leftSmaller, rightSmaller, left, right, hge, hright]
  have hchild : e < child less items e := by
    rw [child]
    split <;> omega
  rw [Array.size_swapIfInBounds]
  omega

def push (items : Array α) (item : α) : Array α :=
  siftUpFrom less (items.push item) items.size

def pop (items : Array α) : Option (α × Array α) :=
  match items[0]? with
  | none      => none
  | some root => some (root, siftDownFrom less (items.swapIfInBounds 0 (items.size - 1)).pop 0)

end Code

section Keys

variable (key : α → κ) {items : Array α} {item : α} {a b e i : ℕ}

def keys (items : Array α) (i : ℕ) : WithTop κ :=
  items[i]?.elim ⊤ fun item => key item

variable {key}

theorem keys_of_le (h : items.size ≤ i) : keys key items i = ⊤ := by
  rw [keys, Array.getElem?_eq_none h, Option.elim_none]

theorem keys_of_getElem? (h : items[i]? = some item) : keys key items i = key item := by
  rw [keys, h, Option.elim_some]

theorem getElem?_swap (ha : a < items.size) (hb : b < items.size) :
    (items.swapIfInBounds a b)[i]? = items[Equiv.swap a b i]? := by
  rw [Array.swapIfInBounds_def, dif_pos ha, dif_pos hb, Array.getElem?_swap, Equiv.swap_apply_def]
  by_cases hia : i = a
  case pos => by_cases hba : b = i <;> simp_all
  case neg => by_cases hib : i = b <;> simp_all [eq_comm]

theorem keys_swap (ha : a < items.size) (hb : b < items.size) :
    keys key (items.swapIfInBounds a b) = keys key items ∘ Equiv.swap a b := by
  funext i
  rw [keys, getElem?_swap ha hb, Function.comp_apply, keys]

theorem keys_push : keys key (items.push item) = Function.update (keys key items) items.size (key item) := by
  funext i
  rw [keys, Array.getElem?_push, Function.update_apply]
  split
  case isTrue h  => rfl
  case isFalse h => rfl

-- The last entry at the root, and one place less.
theorem keys_swap_pop (h : 0 < items.size) :
    keys key (items.swapIfInBounds 0 (items.size - 1)).pop =
      Function.update (Function.update (keys key items) 0 (keys key items (items.size - 1))) (items.size - 1) ⊤ := by
  funext i
  have hlast : items.size - 1 < items.size := Nat.sub_one_lt_of_lt h
  rw [Function.update_apply, Function.update_apply, keys, Array.getElem?_pop, Array.size_swapIfInBounds,
    getElem?_swap h hlast, Equiv.swap_apply_def]
  by_cases hi : i < items.size - 1
  case pos =>
    rw [if_pos hi, if_neg hi.ne, if_neg hi.ne, apply_ite (items[·]?), apply_ite (Option.elim · _ _)]
    rfl
  case neg =>
    rw [if_neg hi, Option.elim_none]
    split
    case isTrue   => rfl
    case isFalse he =>
      rw [if_neg (by omega), keys_of_le (by omega)]

variable [LinearOrder κ]

theorem greater_iff (hb : b < items.size) :
    greater (fun x y => key x < key y) items a b ↔ keys key items a < keys key items b := by
  rw [greater, keys, keys, Array.getElem?_eq_getElem hb]
  cases items[a]? <;> simp

theorem siftUpFrom_isHeap (h : Rises (keys key items) i) (hi : i < items.size) :
    IsHeap (keys key (siftUpFrom (fun x y => key x < key y) items i)) := by
  fun_induction siftUpFrom (fun x y => key x < key y) items i
  case case1 items i hpos parent hgreater =>
    rw [Bool.not_eq_true', ← Bool.not_eq_true, greater_iff (by omega), not_lt] at hgreater
    exact h.isHeap fun _ => hgreater
  case case2 items i hpos parent hgreater ih =>
    rw [Bool.not_eq_true', Bool.not_eq_false, greater_iff (by omega)] at hgreater
    apply ih
    · rw [keys_swap (by omega) hi]
      exact h.swap hpos hgreater
    · rw [Array.size_swapIfInBounds]
      omega
  case case3 items i hzero => exact h.isHeap fun hpos => absurd hpos hzero

-- Where an entry goes down to: it is above none of the entries that it passes.
theorem child_least (hlt : 2 * e + 1 < items.size) :
    (child (fun x y => key x < key y) items e = 2 * e + 1 ∨ child (fun x y => key x < key y) items e = 2 * e + 2) ∧
      child (fun x y => key x < key y) items e < items.size ∧
      keys key items (child (fun x y => key x < key y) items e) ≤ keys key items (2 * e + 1) ∧
      keys key items (child (fun x y => key x < key y) items e) ≤ keys key items (2 * e + 2) := by
  simp only [child, Bool.and_eq_true, decide_eq_true_eq, greater_iff hlt]
  split
  case isTrue h  => exact ⟨.inr rfl, h.left, h.right.le, le_rfl⟩
  case isFalse h =>
    refine ⟨.inl rfl, hlt, le_rfl, ?_⟩
    by_cases hright : 2 * e + 2 < items.size
    case pos => exact not_lt.mp fun hless => h ⟨hright, hless⟩
    case neg =>
      have htop : keys key items (2 * e + 2) = ⊤ := keys_of_le (Nat.not_lt.mp hright)
      exact htop ▸ le_top

theorem smaller_iff (he : e < items.size) :
    i < items.size ∧ greater (fun x y => key x < key y) items i e = true ↔ keys key items i < keys key items e := by
  rw [greater_iff he, and_iff_right_iff_imp]
  intro h
  by_contra hge
  rw [keys_of_le (Nat.not_lt.mp hge)] at h
  exact not_top_lt h

theorem siftDownFrom_isHeap (h : Sinks (keys key items) e) :
    IsHeap (keys key (siftDownFrom (fun x y => key x < key y) items e)) := by
  fun_induction siftDownFrom (fun x y => key x < key y) items e
  case case1 items e left right leftSmaller rightSmaller hneither =>
    simp only [leftSmaller, rightSmaller, Bool.and_eq_true, Bool.not_eq_true', ← Bool.not_eq_true,
      decide_eq_true_eq] at hneither
    by_cases he : e < items.size
    case pos =>
      rw [smaller_iff he, smaller_iff he, not_lt, not_lt] at hneither
      exact h.isHeap hneither.left hneither.right
    case neg =>
      have hleft : keys key items (2 * e + 1) = ⊤ := keys_of_le (by omega)
      have hright : keys key items (2 * e + 2) = ⊤ := keys_of_le (by omega)
      exact h.isHeap (hleft ▸ le_top) (hright ▸ le_top)
  case case2 items e left right leftSmaller rightSmaller hsmaller t ih =>
    have hlt : 2 * e + 1 < items.size := by
      by_contra hge
      have hright : ¬2 * e + 2 < items.size := by omega
      exact hsmaller <| by simp [leftSmaller, rightSmaller, left, right, hge, hright]
    have he : e < items.size := by omega
    have ⟨hchild, hsize, hleft, hright⟩ := @child_least _ _ key items e _ hlt
    have hle : keys key items t ≤ keys key items e := by
      by_contra hgt
      have hgt := not_le.mp hgt
      apply hsmaller
      simp only [leftSmaller, rightSmaller, Bool.and_eq_true, Bool.not_eq_true', ← Bool.not_eq_true,
        decide_eq_true_eq, smaller_iff he, not_lt]
      exact ⟨hgt.le.trans hleft, hgt.le.trans hright⟩
    apply ih
    rw [keys_swap he hsize]
    apply h.swap
    · omega
    · rw [parent_eq_iff (by omega)]
      exact hchild
    · exact hle
    · intro j hj hparent
      obtain rfl | rfl := (parent_eq_iff hj).mp hparent
      · exact hleft
      · exact hright

theorem push_isHeap (h : IsHeap (keys key items)) : IsHeap (keys key (push (fun x y => key x < key y) items item)) := by
  apply siftUpFrom_isHeap
  · rw [keys_push]
    exact h.rises fun j hj => keys_of_le hj.le
  · rw [Array.size_push]
    exact Nat.lt_succ_self _

end Keys

section Entries

variable {less : α → α → Bool} {items items' : Array α} {item root : α} {a b e i : ℕ}

theorem swapIfInBounds_perm : (items.swapIfInBounds a b).Perm items := by
  rw [Array.swapIfInBounds_def]
  split
  case isFalse  => exact .rfl
  case isTrue h =>
    split
    case isFalse   => exact .rfl
    case isTrue h' => exact Array.swap_perm h h'

theorem siftUpFrom_perm : (siftUpFrom less items i).Perm items := by
  fun_induction siftUpFrom less items i
  case case1    => exact .rfl
  case case2 ih => exact ih.trans swapIfInBounds_perm
  case case3    => exact .rfl

theorem siftDownFrom_perm : (siftDownFrom less items e).Perm items := by
  fun_induction siftDownFrom less items e
  case case1    => exact .rfl
  case case2 ih => exact ih.trans swapIfInBounds_perm

theorem mem_push {x : α} : x ∈ push less items item ↔ x ∈ items ∨ x = item := by
  rw [push, siftUpFrom_perm.mem_iff, Array.mem_push]

@[simp]
theorem size_push : (push less items item).size = items.size + 1 := by
  rw [push, siftUpFrom_perm.size_eq, Array.size_push]

theorem pop_eq_none_iff : pop less items = none ↔ items = #[] := by
  rw [pop]
  split
  case h_1 h => simpa using h
  case h_2 h => simp [Array.ne_empty_of_size_pos (Array.getElem?_eq_some_iff.mp h).choose]

theorem pop_perm (h : pop less items = some (root, items')) : items.toList.Perm (root :: items'.toList) := by
  rw [pop] at h
  split at h
  case h_1         => cases h
  case h_2 r hroot =>
    cases h
    have ⟨hpos, _⟩ := Array.getElem?_eq_some_iff.mp hroot
    have hlast : items.size - 1 < items.size := Nat.sub_one_lt_of_lt hpos
    have hswap : (items.swapIfInBounds 0 (items.size - 1)).back? = some root := by
      rw [Array.back?_eq_getElem?, Array.size_swapIfInBounds, getElem?_swap hpos hlast, Equiv.swap_apply_right, hroot]
    rw [← Array.getLast?_toList] at hswap
    have hsplit := List.dropLast_append_getLast? root hswap
    rw [← Array.toList_pop] at hsplit
    have hperm : items.toList.Perm ((items.swapIfInBounds 0 (items.size - 1)).pop.toList ++ [root]) :=
      hsplit ▸ swapIfInBounds_perm.toList.symm
    exact hperm.trans <| (List.perm_append_singleton ..).trans <| siftDownFrom_perm.toList.symm.cons root

theorem mem_pop {x : α} (h : pop less items = some (root, items')) : x ∈ items ↔ x = root ∨ x ∈ items' := by
  rw [← Array.mem_toList_iff, (pop_perm h).mem_iff, List.mem_cons, Array.mem_toList_iff]

theorem size_pop (h : pop less items = some (root, items')) : items.size = items'.size + 1 := by
  simpa using (pop_perm h).length_eq

-- The entry that is taken out is a smallest one.
theorem pop_isHeap {κ : Type} [LinearOrder κ] {key : α → κ} (hheap : IsHeap (keys key items))
    (h : pop (fun x y => key x < key y) items = some (root, items')) :
    IsHeap (keys key items') ∧ ∀ x ∈ items, key root ≤ key x := by
  rw [pop] at h
  split at h
  case h_1         => cases h
  case h_2 r hroot =>
    cases h
    have ⟨hpos, _⟩ := Array.getElem?_eq_some_iff.mp hroot
    constructor
    case left =>
      apply siftDownFrom_isHeap
      rw [keys_swap_pop hpos]
      exact hheap.sinks fun j hj => keys_of_le (by omega)
    case right =>
      intro x hx
      have ⟨i, hi⟩ := Array.mem_iff_getElem?.mp hx
      have hle := hheap.root_le i
      rw [keys_of_getElem? hroot, keys_of_getElem? hi] at hle
      exact WithTop.coe_le_coe.mp hle

end Entries

end ProviderSdk.ScoreHeap
