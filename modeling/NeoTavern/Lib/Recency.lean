import Mathlib

-- Lists in the order of last use, each element with the time at which it was used last.
namespace Recency

variable {α : Type} {used : α → Nat} {m : List α} {clock limit : Nat} {a : α}

-- The least recently used element comes first, and no use lies in the future.
structure Ordered (used : α → Nat) (clock : Nat) (m : List α) : Prop where
  pairwise : m.Pairwise fun a b => used a < used b
  past     : ∀ a ∈ m, used a < clock

theorem Ordered.nil : Ordered used clock [] :=
  ⟨.nil, nofun⟩

theorem Ordered.sublist {m' : List α} (h : Ordered used clock m) (hs : m'.Sublist m) : Ordered used clock m' :=
  ⟨h.pairwise.sublist hs, fun a ha => h.past a <| hs.subset ha⟩

theorem Ordered.later {clock' : Nat} (h : Ordered used clock m) (hle : clock ≤ clock') : Ordered used clock' m :=
  ⟨h.pairwise, fun a ha => Nat.lt_of_lt_of_le (h.past a ha) hle⟩

-- What is used now goes to the end.
theorem Ordered.concat (h : Ordered used clock m) (ha : used a = clock) : Ordered used (clock + 1) (m ++ [a]) := by
  constructor
  case pairwise =>
    rw [List.pairwise_append]
    refine ⟨h.pairwise, List.pairwise_singleton _ a, fun b hb c hc => ?_⟩
    rw [List.mem_singleton.mp hc, ha]
    exact h.past b hb
  case past =>
    intro b hb
    cases List.mem_append.mp hb
    case inl hb => exact Nat.lt_succ_of_lt <| h.past b hb
    case inr hb => exact List.mem_singleton.mp hb ▸ ha ▸ Nat.lt_succ_self _

-- Takes elements away from the front until there are at most `limit`. Also gives each that has been
-- taken away, with those that were left then.
def trim (limit : Nat) : List α → List α × List (α × List α)
  | []     => ([], [])
  | a :: m => if limit < m.length + 1 then ((trim limit m).fst, (a, m) :: (trim limit m).snd) else (a :: m, [])

theorem trim_sublist : (trim limit m).fst.Sublist m := by
  induction m
  case nil => exact .slnil
  case cons a m ih =>
    rw [trim]
    split
    case isTrue  => exact ih.cons a
    case isFalse => exact .refl _

theorem length_trim_le : (trim limit m).fst.length ≤ limit := by
  induction m
  case nil => exact Nat.zero_le _
  case cons a m ih =>
    rw [trim]
    split
    case isTrue    => exact ih
    case isFalse h => exact Nat.le_of_not_lt h

-- Each element that is taken away is the least recently used one.
theorem Ordered.trim_least (h : Ordered used clock m) :
    ∀ dropped ∈ (trim limit m).snd, ∀ b ∈ dropped.snd, used dropped.fst < used b := by
  induction m
  case nil => exact nofun
  case cons a m ih =>
    rw [trim]
    split
    case isFalse => exact nofun
    case isTrue  =>
      intro dropped hd
      cases List.mem_cons.mp hd
      case inl hd => exact hd ▸ fun b hb => List.rel_of_pairwise_cons h.pairwise hb
      case inr hd => exact ih (h.sublist <| List.sublist_cons_self a m) dropped hd

end Recency
