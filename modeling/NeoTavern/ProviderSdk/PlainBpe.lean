import Mathlib

-- Byte pair encoding as it is defined: as long as there is one, the pair of neighbours with the lowest
-- rank is merged.
namespace ProviderSdk

abbrev Bytes := List UInt8

abbrev Ranks := Bytes → Option ℤ

namespace PlainBpe

variable (ranks : Ranks)

-- The lowest rank of a pair, and the place of the leftmost pair with this rank.
def lowest : List Bytes → Option (ℤ × ℕ)
  | a :: b :: rest =>
    let later := (lowest (b :: rest)).map fun (rank, n) => (rank, n + 1)
    match ranks (a ++ b), later with
    | none, _                       => later
    | some rank, none               => some (rank, 0)
    | some rank, some (rank', n)    => if rank ≤ rank' then some (rank, 0) else some (rank', n)
  | _              => none

def mergeAt : ℕ → List Bytes → List Bytes
  | 0, a :: b :: rest => (a ++ b) :: rest
  | n + 1, a :: rest  => a :: mergeAt n rest
  | _, tokens         => tokens

-- A pair of neighbours with a rank.
def IsPair (tokens : List Bytes) (n : ℕ) (rank : ℤ) : Prop :=
  ∃ a b, tokens[n]? = some a ∧ tokens[n + 1]? = some b ∧ ranks (a ++ b) = some rank

variable {ranks} {tokens rest : List Bytes} {a b : Bytes} {n n' : ℕ} {rank rank' : ℤ}

theorem isPair_zero : IsPair ranks (a :: b :: rest) 0 rank ↔ ranks (a ++ b) = some rank := by
  simp [IsPair]

theorem isPair_succ : IsPair ranks (a :: rest) (n + 1) rank ↔ IsPair ranks rest n rank := by
  simp [IsPair]

example : mergeAt 1 [[1], [2], [3]] = [[1], [2, 3]] := by
  decide +kernel

theorem length_mergeAt (h : IsPair ranks tokens n rank) : (mergeAt n tokens).length + 1 = tokens.length := by
  fun_induction mergeAt n tokens
  case case1           => rfl
  case case2 n a rest ih => rw [List.length_cons, List.length_cons, ih <| isPair_succ.mp h]
  case case3 n tokens hzero hsucc =>
    obtain ⟨a, b, ha, hb, _⟩ := h
    cases n
    case zero =>
      match tokens with
      | []            => cases ha
      | [a]           => cases hb
      | a :: b :: rest => exact (hzero a b rest rfl rfl).elim
    case succ n =>
      cases tokens
      case nil         => cases ha
      case cons a rest => exact (hsucc n a rest rfl rfl).elim

-- What is found is a pair, and no other comes before it.
structure IsLowest (ranks : Ranks) (tokens : List Bytes) (n : ℕ) (rank : ℤ) : Prop where
  isPair : IsPair ranks tokens n rank
  least  : ∀ n' rank', IsPair ranks tokens n' rank' → rank < rank' ∨ rank = rank' ∧ n ≤ n'

theorem not_isPair_singleton : ¬IsPair ranks [a] n rank := by
  rintro ⟨_, _, _, hb, _⟩
  cases hb

theorem isPair_cons (h : IsPair ranks (a :: b :: rest) n rank) :
    n = 0 ∧ ranks (a ++ b) = some rank ∨ ∃ m, n = m + 1 ∧ IsPair ranks (b :: rest) m rank := by
  cases n
  case zero   => exact .inl ⟨rfl, isPair_zero.mp h⟩
  case succ n => exact .inr ⟨n, rfl, isPair_succ.mp h⟩

theorem IsLowest.zero (hfirst : ranks (a ++ b) = some rank)
    (h : ∀ n rank', IsPair ranks (b :: rest) n rank' → rank ≤ rank') : IsLowest ranks (a :: b :: rest) 0 rank := by
  refine ⟨isPair_zero.mpr hfirst, fun n' rank' hpair => ?_⟩
  obtain ⟨rfl, hrank⟩ | ⟨m, rfl, hpair⟩ := isPair_cons hpair
  case inl =>
    cases hfirst.symm.trans hrank
    exact .inr ⟨rfl, Nat.le_refl 0⟩
  case inr =>
    have := h m rank' hpair
    omega

theorem IsLowest.succ (h : IsLowest ranks (b :: rest) n rank) (hfirst : ∀ rank', ranks (a ++ b) = some rank' → rank < rank') :
    IsLowest ranks (a :: b :: rest) (n + 1) rank := by
  refine ⟨isPair_succ.mpr h.isPair, fun n' rank' hpair => ?_⟩
  obtain ⟨rfl, hrank⟩ | ⟨m, rfl, hpair⟩ := isPair_cons hpair
  case inl => exact .inl <| hfirst rank' hrank
  case inr =>
    have := h.least m rank' hpair
    omega

-- The first pair, or the lowest one of the others.
theorem lowest_spec (tokens : List Bytes) :
    (lowest ranks tokens = none → ∀ n rank, ¬IsPair ranks tokens n rank) ∧
    (∀ rank n, lowest ranks tokens = some (rank, n) → IsLowest ranks tokens n rank) := by
  match tokens with
  | []             =>
    refine ⟨fun _ n rank h => ?_, nofun⟩
    obtain ⟨_, _, ha, _⟩ := h
    cases ha
  | [a]            => exact ⟨fun _ _ _ => not_isPair_singleton, nofun⟩
  | a :: b :: rest =>
    have ⟨hnone, hsome⟩ := lowest_spec (b :: rest)
    rw [lowest]
    cases hfirst : ranks (a ++ b) <;> cases hlater : lowest ranks (b :: rest)
    case none.none =>
      refine ⟨fun _ n rank h => ?_, nofun⟩
      obtain ⟨rfl, hrank⟩ | ⟨m, rfl, hpair⟩ := isPair_cons h
      · cases hfirst.symm.trans hrank
      · exact hnone hlater m rank hpair
    case none.some pair =>
      refine ⟨nofun, fun rank n h => ?_⟩
      cases h
      exact (hsome _ _ hlater).succ fun _ hrank => by cases hfirst.symm.trans hrank
    case some.none rank =>
      refine ⟨nofun, fun rank' n h => ?_⟩
      cases h
      exact .zero hfirst fun m rank' hpair => absurd hpair <| hnone hlater m rank'
    case some.some rank pair =>
      have hlowest := hsome _ _ hlater
      simp only [Option.map_some]
      split
      case isTrue hle =>
        refine ⟨nofun, fun rank' n h => ?_⟩
        cases h
        refine .zero hfirst fun m rank' hpair => ?_
        have := hlowest.least m rank' hpair
        omega
      case isFalse hgt =>
        refine ⟨nofun, fun rank' n h => ?_⟩
        cases h
        refine hlowest.succ fun rank' hrank => ?_
        cases hfirst.symm.trans hrank
        omega

theorem IsLowest.eq (h : IsLowest ranks tokens n rank) : lowest ranks tokens = some (rank, n) := by
  have ⟨hnone, hsome⟩ := @lowest_spec ranks tokens
  cases hlowest : lowest ranks tokens
  case none      => exact absurd h.isPair <| hnone hlowest n rank
  case some pair =>
    have hpair := hsome _ _ hlowest
    have hle := hpair.least _ _ h.isPair
    have hge := h.least _ _ hpair.isPair
    have hrank : rank = pair.fst := by omega
    have hn : n = pair.snd := by omega
    rw [hrank, hn]

theorem lowest_eq_none (h : ∀ n rank, ¬IsPair ranks tokens n rank) : lowest ranks tokens = none := by
  cases hlowest : lowest ranks tokens
  case none      => rfl
  case some pair => exact absurd ((lowest_spec tokens).right _ _ hlowest).isPair <| h _ _

theorem isPair_of_lowest (h : lowest ranks tokens = some (rank, n)) : IsPair ranks tokens n rank :=
  ((lowest_spec tokens).right rank n h).isPair

variable (ranks) in
-- The tokens that are left when no pair has a rank.
def merge (tokens : List Bytes) : List Bytes :=
  match h : lowest ranks tokens with
  | none        => tokens
  | some (_, n) => merge (mergeAt n tokens)
termination_by tokens.length
decreasing_by
  have hlength := length_mergeAt <| isPair_of_lowest h
  omega

theorem merge_of_none (h : lowest ranks tokens = none) : merge ranks tokens = tokens := by
  rw [merge]
  split
  case h_1        => rfl
  case h_2 hsome  => cases h.symm.trans hsome

theorem merge_of_isLowest (h : IsLowest ranks tokens n rank) : merge ranks tokens = merge ranks (mergeAt n tokens) := by
  rw [merge]
  split
  case h_1 hnone => cases h.eq.symm.trans hnone
  case h_2 hsome =>
    cases h.eq.symm.trans hsome
    rfl

variable (ranks) in
def count (bytes : Bytes) : ℕ :=
  (merge ranks <| bytes.map ([·])).length

end PlainBpe

end ProviderSdk
