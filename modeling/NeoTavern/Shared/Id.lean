import Mathlib
import NeoTavern.Lib.Radix

-- Entity identifiers, version 7 of RFC 9562.
namespace Shared

-- What `Date.now` and `getRandomValues` give to the calls of `uuidv7`.
structure Environment where
  dateNow : Nat → Nat
  random  : Nat → Nat

def uuidV7RandomBits : Nat := 74

-- The variables of the module, and how many identifiers it has made.
structure UuidV7 where
  lastTimestamp : Int
  lastRandom    : Nat
  random_lt     : lastRandom < 2 ^ uuidV7RandomBits
  made          : Nat

namespace UuidV7

def initial : UuidV7 where
  lastTimestamp := -1
  lastRandom    := 0
  random_lt     := by decide
  made          := 0

def random74Bits (env : Environment) (n : Nat) : Nat :=
  env.random n % 2 ^ uuidV7RandomBits

def step (env : Environment) (g : UuidV7) : UuidV7 :=
  let ts := env.dateNow g.made
  let increased := (g.lastRandom + 1) % 2 ^ uuidV7RandomBits
  if ts > g.lastTimestamp then
    {
      lastTimestamp := ts
      lastRandom    := random74Bits env g.made
      random_lt     := Nat.mod_lt _ (by decide)
      made          := g.made + 1
    }
  else if increased = 0 then
    {
      lastTimestamp := g.lastTimestamp + 1
      lastRandom    := random74Bits env g.made
      random_lt     := Nat.mod_lt _ (by decide)
      made          := g.made + 1
    }
  else
    {
      lastTimestamp := g.lastTimestamp
      lastRandom    := increased
      random_lt     := Nat.mod_lt _ (by decide)
      made          := g.made + 1
    }

def hex (w n : Nat) : List Char :=
  Radix.digits Nat.digitChar 16 w n

-- The bytes of the view in hexadecimal: two for the timestamp, the version with twelve bits of the random
-- number, and the variant with the others.
def chars (g : UuidV7) : List Char :=
  let ts := g.lastTimestamp.toNat
  let randA := g.lastRandom / 2 ^ 62
  let low := 2 * 2 ^ 62 + g.lastRandom % 2 ^ 62
  hex 8 (ts / 0x10000 % 2 ^ 32) ++ '-' :: (hex 4 (ts % 2 ^ 16) ++ '-' :: (hex 4 (0x7000 + randA) ++
    '-' :: (hex 4 (low / 2 ^ 48) ++ '-' :: hex 12 (low % 2 ^ 48))))

def text (g : UuidV7) : String :=
  .ofList g.chars

theorem text_ne_empty (g : UuidV7) : g.text ≠ "" := by
  intro h
  have hlist : g.chars = "".toList := by rw [← h, text, String.toList_ofList]
  have hlen := congrArg List.length hlist
  simp [chars] at hlen

variable {env : Environment} {g g' : UuidV7}

theorem digitChar_lt (i j : Nat) (h : i < j) (hj : j < 16) : Nat.digitChar i < Nat.digitChar j := by
  have hall : ∀ j < 16, ∀ i < j, Nat.digitChar i < Nat.digitChar j := by decide
  exact hall j hj i h

theorem hex_append_lt (hn : n < 16 ^ w) (h : m < n ∨ m = n ∧ xs < ys) : hex w m ++ xs < hex w n ++ ys :=
  Radix.digits_append_lt digitChar_lt hn h

theorem hex_hyphen_lt (hn : n < 16 ^ w) (h : m < n ∨ m = n ∧ xs < ys) :
    hex w m ++ '-' :: xs < hex w n ++ '-' :: ys :=
  hex_append_lt hn <| h.imp_right <| And.imp_right fun h => List.cons_lt_cons_iff.mpr <| .inr ⟨rfl, h⟩

-- The order in which identifiers are made.
def order (g : UuidV7) : Int ×ₗ Nat :=
  toLex (g.lastTimestamp, g.lastRandom)

theorem order_lt_iff : g.order < g'.order ↔ g.lastTimestamp < g'.lastTimestamp ∨
    g.lastTimestamp = g'.lastTimestamp ∧ g.lastRandom < g'.lastRandom :=
  Prod.Lex.toLex_lt_toLex

theorem order_lt_step : g.order < (g.step env).order := by
  rw [order_lt_iff, step]
  split
  case isTrue h => exact .inl h
  case isFalse =>
    split
    case isTrue  => exact .inl <| Int.lt_succ _
    case isFalse h =>
      apply Or.inr <| And.intro rfl _
      have hle : g.lastRandom + 1 ≤ 2 ^ uuidV7RandomBits := g.random_lt
      cases Nat.lt_or_eq_of_le hle
      case inl hlt =>
        have hmod := Nat.mod_eq_of_lt hlt
        simp only [hmod]
        exact Nat.lt_succ_self _
      case inr he => exact absurd (he ▸ Nat.mod_self _) h

theorem step_nonneg : 0 ≤ (g.step env).lastTimestamp := by
  rw [step]
  split
  case isTrue  => exact Int.natCast_nonneg _
  case isFalse h =>
    have hle : (0 : Int) ≤ g.lastTimestamp := by omega
    split
    case isTrue  => exact Int.le_add_one hle
    case isFalse => exact hle

theorem low_lt_low {m n : Nat} (h : m < n) : m / 2 ^ 62 < n / 2 ^ 62 ∨
    m / 2 ^ 62 = n / 2 ^ 62 ∧ m % 2 ^ 62 < n % 2 ^ 62 := by
  have hm := Nat.div_add_mod m (2 ^ 62)
  have hn' := Nat.div_add_mod n (2 ^ 62)
  have hle : m / 2 ^ 62 ≤ n / 2 ^ 62 := Nat.div_le_div_right h.le
  omega

-- The texts of identifiers are in that order while 48 bits hold the timestamp.
theorem text_lt_text (h : g.order < g'.order) (hpos : 0 ≤ g.lastTimestamp) (h48 : g'.lastTimestamp < 2 ^ 48) :
    g.text < g'.text := by
  have hrandom : g'.lastRandom < 2 ^ 74 := g'.random_lt
  rw [order_lt_iff] at h
  rw [String.lt_iff, text, text, String.toList_ofList, String.toList_ofList]
  have htimestamp : g.lastTimestamp.toNat / 0x10000 % 2 ^ 32 < g'.lastTimestamp.toNat / 0x10000 % 2 ^ 32 ∨
      g.lastTimestamp.toNat / 0x10000 % 2 ^ 32 = g'.lastTimestamp.toNat / 0x10000 % 2 ^ 32 ∧
        (g.lastTimestamp.toNat % 2 ^ 16 < g'.lastTimestamp.toNat % 2 ^ 16 ∨
          g.lastTimestamp.toNat % 2 ^ 16 = g'.lastTimestamp.toNat % 2 ^ 16 ∧ g.lastRandom < g'.lastRandom) := by
    omega
  apply hex_hyphen_lt (by omega) <| htimestamp.imp_right <| And.imp_right _
  intro h
  apply hex_hyphen_lt (by omega) <| h.imp_right <| And.imp_right _
  intro h
  apply hex_hyphen_lt (by omega) <| (low_lt_low h).imp (Nat.add_lt_add_left · _) <| And.imp (congrArg _) _
  intro h
  have hlow : (2 * 2 ^ 62 + g.lastRandom % 2 ^ 62) / 2 ^ 48 < (2 * 2 ^ 62 + g'.lastRandom % 2 ^ 62) / 2 ^ 48 ∨
      (2 * 2 ^ 62 + g.lastRandom % 2 ^ 62) / 2 ^ 48 = (2 * 2 ^ 62 + g'.lastRandom % 2 ^ 62) / 2 ^ 48 ∧
        (2 * 2 ^ 62 + g.lastRandom % 2 ^ 62) % 2 ^ 48 < (2 * 2 ^ 62 + g'.lastRandom % 2 ^ 62) % 2 ^ 48 := by
    omega
  exact hex_hyphen_lt (by omega) <| hlow.imp_right <| And.imp_right <| Radix.digits_lt_digits digitChar_lt (by omega)

-- What has been made between `g` and `g'`.
structure Made (g : UuidV7) (made : List UuidV7) (g' : UuidV7) : Prop where
  sorted : made.Pairwise (·.order < ·.order)
  after  : ∀ x ∈ made, g.order < x.order ∧ 0 ≤ x.lastTimestamp
  before : ∀ x ∈ made, x.order ≤ g'.order
  le     : g.order ≤ g'.order

namespace Made

variable {made made' : List UuidV7} {g'' : UuidV7}

theorem nil (g : UuidV7) : Made g [] g where
  sorted := .nil
  after  := fun _ h => by cases h
  before := fun _ h => by cases h
  le     := le_rfl

theorem step (env : Environment) (g : UuidV7) : Made g [g.step env] (g.step env) where
  sorted := List.pairwise_singleton _ _
  after  := fun _ h => List.mem_singleton.mp h ▸ ⟨order_lt_step, step_nonneg⟩
  before := fun _ h => List.mem_singleton.mp h ▸ le_rfl
  le     := order_lt_step.le

theorem append (h : Made g made g') (h' : Made g' made' g'') : Made g (made ++ made') g'' where
  sorted := List.pairwise_append.mpr
    ⟨h.sorted, h'.sorted, fun x hx y hy => (h.before x hx).trans_lt (h'.after y hy).left⟩
  after  := by
    intro x hx
    cases List.mem_append.mp hx
    case inl hx => exact h.after x hx
    case inr hx => exact ⟨h.le.trans_lt (h'.after x hx).left, (h'.after x hx).right⟩
  before := by
    intro x hx
    cases List.mem_append.mp hx
    case inl hx => exact (h.before x hx).trans h'.le
    case inr hx => exact h'.before x hx
  le     := h.le.trans h'.le

-- Nothing is said of what has been made where no one asks.
theorem skip (h : Made g made g') (hle : g'.order ≤ g''.order) : Made g made g'' :=
  { h with before := fun x hx => (h.before x hx).trans hle, le := h.le.trans hle }

theorem text_pairwise (h : Made g made g') (h48 : g'.lastTimestamp < 2 ^ 48) :
    made.Pairwise (·.text < ·.text) := by
  apply h.sorted.imp_of_mem
  intro x y hx hy hlt
  have hle : y.lastTimestamp ≤ g'.lastTimestamp := by
    cases (h.before y hy).lt_or_eq
    case inl h =>
      cases order_lt_iff.mp h
      case inl h => exact h.le
      case inr h => exact h.left.le
    case inr h =>
      have hpair := toLex.injective h
      exact (congrArg Prod.fst hpair).le
  exact text_lt_text hlt (h.after x hx).right <| hle.trans_lt h48

end Made
end UuidV7
end Shared
