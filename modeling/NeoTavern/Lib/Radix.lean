import NeoTavern.Lib.Lists
import Mathlib

-- Numerals of a fixed width.
namespace Radix

variable {symbol : Nat → Char} {b w m n : Nat} {xs ys : List Char}

-- The last `w` digits of `n` to the base `b`.
def digits (symbol : Nat → Char) (b : Nat) : (w n : Nat) → List Char
  | 0,     _ => []
  | w + 1, n => digits symbol b w (n / b) ++ [symbol (n % b)]

@[simp]
theorem length_digits : (digits symbol b w n).length = w := by
  induction w generalizing n
  case zero    => rfl
  case succ ih => simp [digits, ih]

theorem digits_lt_digits (hsymbol : ∀ i j, i < j → j < b → symbol i < symbol j) (hn : n < b ^ w) (h : m < n) :
    digits symbol b w m < digits symbol b w n := by
  induction w generalizing m n
  case zero => simp only [Nat.pow_zero] at hn; omega
  case succ w ih =>
    rw [Nat.pow_succ, Nat.mul_comm] at hn
    have hb : 0 < b := Nat.pos_of_mul_pos_right (Nat.zero_lt_of_lt hn)
    have hdiv : m / b ≤ n / b := Nat.div_le_div_right h.le
    cases Nat.lt_or_eq_of_le hdiv
    case inl hd =>
      have hlt := ih (Nat.div_lt_of_lt_mul hn) hd
      exact Lists.append_lt_of_lt (by simp) hlt
    case inr he =>
      have hmod : m % b < n % b := by
        have hm := Nat.div_add_mod m b
        have hn := Nat.div_add_mod n b
        rw [he] at hm
        omega
      rw [digits, digits, he]
      exact Lists.append_lt_append_left <| List.cons_lt_cons_iff.mpr <| .inl <|
        hsymbol _ _ hmod <| Nat.mod_lt _ hb

theorem digits_append_lt (hsymbol : ∀ i j, i < j → j < b → symbol i < symbol j) (hn : n < b ^ w)
    (h : m < n ∨ m = n ∧ xs < ys) : digits symbol b w m ++ xs < digits symbol b w n ++ ys := by
  cases h
  case inl h => exact Lists.append_lt_of_lt (by simp) <| digits_lt_digits hsymbol hn h
  case inr h => exact h.left ▸ Lists.append_lt_append_left h.right

theorem digits_append_digits (hn : n < b ^ w) :
    digits symbol b v m ++ digits symbol b w n = digits symbol b (v + w) (m * b ^ w + n) := by
  induction w generalizing n
  case zero =>
    simp only [Nat.pow_zero, Nat.lt_one_iff] at hn
    simp [digits, hn]
  case succ w ih =>
    rw [Nat.pow_succ] at hn
    have hb : 0 < b := Nat.pos_of_mul_pos_left (Nat.zero_lt_of_lt hn)
    have hdiv : (m * b ^ (w + 1) + n) / b = m * b ^ w + n / b := by
      rw [Nat.pow_succ, ← Nat.mul_assoc, Nat.mul_comm _ b, Nat.mul_add_div hb]
    have hmod : (m * b ^ (w + 1) + n) % b = n % b := by
      rw [Nat.pow_succ, ← Nat.mul_assoc, Nat.mul_comm _ b, Nat.mul_add_mod]
    rw [← Nat.add_assoc, digits, digits, hdiv, hmod, ← ih <| Nat.div_lt_of_lt_mul <| Nat.mul_comm _ b ▸ hn]
    simp

end Radix
