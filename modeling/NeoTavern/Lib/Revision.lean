import Mathlib

-- Optimistic concurrency: objects under keys, each with a revision that every write to it raises.
namespace Revision

variable {κ ρ R : Type} [PartialOrder R] (rev : ρ → R)

-- `t` comes from `s` by writes and removals. No key that `s` misses is present in `t`.
def Evolves (s t : κ → Option ρ) : Prop :=
  ∀ k r', t k = some r' → ∃ r, s k = some r ∧ (r' = r ∨ rev r < rev r')

namespace Evolves

variable {rev} {s t u : κ → Option ρ}

theorem refl (s : κ → Option ρ) : Evolves rev s s :=
  fun _ r h => ⟨r, h, .inl rfl⟩

theorem trans (h₁ : Evolves rev s t) (h₂ : Evolves rev t u) : Evolves rev s u := by
  intro k r'' h
  have ⟨r', ht, h₂⟩ := h₂ k r'' h
  have ⟨r, hs, h₁⟩ := h₁ k r' ht
  refine ⟨r, hs, ?_⟩
  rcases h₁ with rfl | h₁
  · exact h₂
  · rcases h₂ with rfl | h₂
    · exact .inr h₁
    · exact .inr <| h₁.trans h₂

end Evolves

-- A copy of the object under `k` that is current unless the object has moved on.
def Known (s : κ → Option ρ) (k : κ) (r : ρ) : Prop :=
  ∀ r', s k = some r' → r' = r ∨ rev r < rev r'

namespace Known

variable {rev} {s t : κ → Option ρ}

theorem of_current (h : s k = some r) : Known rev s k r :=
  fun _ h' => .inl <| Option.some.inj <| h'.symm.trans h

theorem evolves (h : Known rev s k r) (he : Evolves rev s t) : Known rev t k r := by
  intro r'' ht
  have ⟨r', hs, h'⟩ := he k r'' ht
  rcases h' with rfl | h'
  · exact h r'' hs
  · rcases h r' hs with rfl | h
    · exact .inr h'
    · exact .inr <| h.trans h'

-- What a compare-and-swap relies on: a copy whose revision is current is itself current.
theorem eq_of_rev_eq (h : Known rev s k r) (hs : s k = some r') (hr : rev r' = rev r) : r' = r :=
  h r' hs |>.resolve_right fun h => (hr ▸ h).false

end Known
end Revision
