import Mathlib

variable {τ α : Type}

-- A pattern reads at the start of a text and leaves the rest of it, having taken something.
structure Pattern (τ α : Type) where
  read : List τ → Option (α × List τ)
  taken : ∀ {t : List τ} {a : α} {rest : List τ}, read t = some (a, rest) → ∃ m, m ≠ [] ∧ t = m ++ rest

namespace Pattern

inductive Piece (τ α : Type) where
  | unit (u : τ)
  | hit (a : α) (source : List τ)

variable {p : Pattern τ α} {t rest : List τ} {a : α} {u : τ}

theorem length_lt (h : p.read t = some (a, rest)) : rest.length < t.length := by
  have ⟨m, hm, ht⟩ := p.taken h
  have := List.length_pos_iff.mpr hm
  rw [ht, List.length_append]
  omega

theorem read_nil : p.read [] = none := by
  cases h : p.read []
  case none => rfl
  case some => exact absurd (length_lt h) (Nat.not_lt_zero _)

-- The part of `t` in front of `rest`.
def before (t rest : List τ) : List τ :=
  t.take (t.length - rest.length)

theorem before_append (m rest : List τ) : before (m ++ rest) rest = m := by
  simp [before]

-- The matches of a global regular expression and the units between them. The fuel bounds the pieces.
def scanWith (p : Pattern τ α) : Nat → List τ → List (Piece τ α)
  | 0, _             => []
  | _ + 1, []        => []
  | fuel + 1, u :: t =>
    match p.read (u :: t) with
    | some (a, rest) => .hit a (before (u :: t) rest) :: scanWith p fuel rest
    | none           => .unit u :: scanWith p fuel t

def scan (p : Pattern τ α) (t : List τ) : List (Piece τ α) :=
  p.scanWith t.length t

theorem scanWith_eq_scan {fuel : Nat} (h : t.length ≤ fuel) : p.scanWith fuel t = p.scan t := by
  induction fuel using Nat.strong_induction_on generalizing t
  case _ fuel hi =>
    cases t
    case nil => cases fuel <;> rfl
    case cons u t =>
      cases fuel
      case zero => simp at h
      case succ fuel =>
        simp only [List.length_cons, Nat.add_le_add_iff_right] at h
        simp only [scan, List.length_cons, scanWith]
        cases hr : p.read (u :: t)
        case none =>
          simp only
          rw [hi fuel (Nat.lt_succ_self fuel) h, scan]
        case some hit =>
          have hlt := length_lt hr
          simp only [List.length_cons] at hlt
          simp only
          rw [hi fuel (Nat.lt_succ_self fuel) (by omega)]
          by_cases hfuel : t.length < fuel + 1
          case neg => omega
          case pos => rw [hi t.length hfuel (by omega)]

theorem scan_nil : p.scan [] = [] :=
  rfl

theorem scan_unit (h : p.read (u :: t) = none) : p.scan (u :: t) = .unit u :: p.scan t := by
  simp [scan, scanWith, h]

theorem scan_hit (h : p.read t = some (a, rest)) : p.scan t = .hit a (before t rest) :: p.scan rest := by
  cases t
  case nil => simp [read_nil] at h
  case cons u t =>
    have hlt := length_lt h
    simp only [List.length_cons] at hlt
    simp only [scan, List.length_cons, scanWith, h, List.cons.injEq, true_and]
    exact scanWith_eq_scan <| by omega

-- `t.replace(p, f)`
def replace (p : Pattern τ α) (f : α → List τ → List τ) (t : List τ) : List τ :=
  (p.scan t).flatMap fun
    | .unit u       => [u]
    | .hit a source => f a source

variable {f : α → List τ → List τ}

theorem replace_nil : p.replace f [] = [] :=
  rfl

theorem replace_unit (h : p.read (u :: t) = none) : p.replace f (u :: t) = u :: p.replace f t := by
  simp [replace, scan_unit h]

theorem replace_hit (h : p.read t = some (a, rest)) : p.replace f t = f a (before t rest) ++ p.replace f rest := by
  simp [replace, scan_hit h]

-- Where no match starts in `s`, all of `s` stays.
theorem replace_append {s : List τ} (h : ∀ y z, s = y ++ z → z ≠ [] → p.read (z ++ t) = none) :
    p.replace f (s ++ t) = s ++ p.replace f t := by
  induction s
  case nil => rfl
  case cons u s hi =>
    have hu : p.read (u :: (s ++ t)) = none := h [] (u :: s) rfl (List.cons_ne_nil u s)
    rw [List.cons_append, replace_unit hu, hi, List.cons_append]
    intro y z hs hz
    exact h (u :: y) z (by rw [hs, List.cons_append]) hz

-- The matches of `p` that satisfy `c`.
def only (p : Pattern τ α) (c : α → Bool) : Pattern τ α where
  read t := (p.read t).filter fun (a, _) => c a
  taken := by
    intro t a rest h
    exact p.taken (Option.filter_eq_some_iff.mp h).1

theorem only_read_eq_some {c : α → Bool} : (p.only c).read t = some (a, rest) ↔ p.read t = some (a, rest) ∧ c a := by
  simp [only, Option.filter_eq_some_iff]

theorem only_read_eq_none {c : α → Bool} :
    (p.only c).read t = none ↔ ∀ a rest, p.read t = some (a, rest) → c a = false := by
  simp [only, Option.filter_eq_none_iff]

-- No match starts within another one.
def Separate (p : Pattern τ α) : Prop :=
  ∀ (y z rest : List τ) (a : α), p.read (y ++ z ++ rest) = some (a, rest) → y ≠ [] → z ≠ [] →
    p.read (z ++ rest) = none

-- A match that is put back as it was need not be looked for.
theorem replace_only {c : α → Bool} (hp : p.Separate) (hf : ∀ a source, c a = false → f a source = source) :
    p.replace f t = (p.only c).replace f t := by
  induction hn : t.length using Nat.strong_induction_on generalizing t
  case _ n hi =>
    cases t
    case nil => rfl
    case cons u t =>
      cases hr : p.read (u :: t)
      case none =>
        have ho : (p.only c).read (u :: t) = none := only_read_eq_none.mpr <| by simp [hr]
        rw [replace_unit hr, replace_unit ho, hi t.length (by simp [← hn]) rfl]
      case some hit =>
        have hr : p.read (u :: t) = some (hit.1, hit.2) := hr
        have hlt := length_lt hr
        have hrest := hi hit.2.length (by omega) rfl
        rw [replace_hit hr, hrest]
        by_cases hc : c hit.1
        case pos => rw [replace_hit <| only_read_eq_some.mpr ⟨hr, hc⟩]
        case neg =>
          have hc : c hit.1 = false := Bool.eq_false_iff.mpr hc
          have ⟨m, hm, ht⟩ := p.taken hr
          rw [hf _ _ hc, ht, before_append]
          refine (replace_append ?_).symm
          intro y z hs hz
          rw [only_read_eq_none]
          intro a rest ha
          by_cases hy : y = []
          case pos =>
            rw [hy, List.nil_append] at hs
            rw [← hs, ← ht, hr] at ha
            cases ha
            exact hc
          case neg =>
            rw [ht, hs] at hr
            rw [hp y z hit.2 hit.1 hr hy hz] at ha
            cases ha

end Pattern
