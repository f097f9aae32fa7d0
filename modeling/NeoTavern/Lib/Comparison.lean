import Mathlib

-- Comparisons in lexicographic orders, one part after the other.
namespace Comparison

variable {α β γ : Type*} [LinearOrder α] [LinearOrder β] [LinearOrder γ]

def order (a b : α) : Ordering :=
  if a < b then .lt else if b < a then .gt else .eq

section Cases

variable {a b : α}

theorem order_eq_lt_iff : order a b = .lt ↔ a < b := by
  rcases lt_trichotomy a b with h | h | h
  · simp [order, h]
  · simp [order, h]
  · simp [order, h, h.not_gt]

theorem order_eq_gt_iff : order a b = .gt ↔ b < a := by
  rcases lt_trichotomy a b with h | h | h
  · simp [order, h, h.not_gt]
  · simp [order, h]
  · simp [order, h, h.not_gt]

theorem order_eq_eq_iff : order a b = .eq ↔ a = b := by
  rcases lt_trichotomy a b with h | h | h
  · simp [order, h, h.ne]
  · simp [order, h]
  · simp [order, h, h.not_gt, h.ne']

end Cases

theorem compare_eq_order (m n : Nat) : compare m n = order m n := by
  rcases lt_trichotomy m n with h | h | h
  · rw [order_eq_lt_iff.mpr h, Nat.compare_eq_lt.mpr h]
  · rw [order_eq_eq_iff.mpr h, Nat.compare_eq_eq.mpr h]
  · rw [order_eq_gt_iff.mpr h, Nat.compare_eq_gt.mpr h]

theorem order_of_iff {a b : α} {c d : β} (hlt : a < b ↔ c < d) (hgt : b < a ↔ d < c) : order a b = order c d := by
  simp only [order, hlt, hgt]

theorem order_then {a b : α} {c d : β} {x y : γ} (hlt : x < y ↔ a < b ∨ a = b ∧ c < d)
    (hgt : y < x ↔ b < a ∨ b = a ∧ d < c) : order x y = (order a b).then (order c d) := by
  rcases lt_trichotomy a b with h | h | h
  · simp [order, hlt, h]
  · subst h
    simp only [lt_irrefl, true_and, false_or] at hlt hgt
    rw [order_eq_eq_iff.mpr rfl, Ordering.eq_then]
    exact order_of_iff hlt hgt
  · simp [order, hlt, hgt, h, h.not_gt, h.ne']

theorem order_toLex (a a' : α) (b b' : β) :
    order (toLex (a, b)) (toLex (a', b')) = (order a a').then (order b b') :=
  order_then Prod.Lex.toLex_lt_toLex Prod.Lex.toLex_lt_toLex

theorem order_cons (a b : α) (as bs : List α) : order (a :: as) (b :: bs) = (order a b).then (order as bs) :=
  order_then List.cons_lt_cons_iff List.cons_lt_cons_iff

theorem order_coe (a b : α) : order (a : WithTop α) b = order a b :=
  order_of_iff WithTop.coe_lt_coe WithTop.coe_lt_coe

theorem order_inl (a b : α) : order (toLex (.inl a : α ⊕ β)) (toLex (.inl b)) = order a b :=
  order_of_iff Sum.Lex.inl_lt_inl_iff Sum.Lex.inl_lt_inl_iff

theorem order_inr (a b : β) : order (toLex (.inr a : α ⊕ β)) (toLex (.inr b)) = order a b :=
  order_of_iff Sum.Lex.inr_lt_inr_iff Sum.Lex.inr_lt_inr_iff

theorem map_lt_map_iff {f : α → β} (hf : StrictMono f) {as bs : List α} : as.map f < bs.map f ↔ as < bs := by
  induction as generalizing bs
  case nil => cases bs <;> simp
  case cons a as ih =>
    cases bs
    case nil       => simp
    case cons b bs => simp [List.cons_lt_cons_iff, hf.lt_iff_lt, hf.injective.eq_iff, ih]

end Comparison
