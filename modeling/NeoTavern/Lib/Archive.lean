import Mathlib

-- An object whose current value writers replace, and a store of values that it had. No step may
-- drop a stored value. Whether a step also keeps the value that it replaces is left open.
structure Archive (σ ε α : Type) where
  Inv      : σ → Prop
  step     : σ → ε → σ
  current  : σ → Set α
  stored   : σ → Set α
  inv_step : ∀ {s} e, Inv s → Inv (step s e)
  keeps    : ∀ {s} e, Inv s → stored s ⊆ current (step s e) ∪ stored (step s e)

namespace Archive

variable {σ ε α : Type} (a : Archive σ ε α)

def held (s : σ) : Set α :=
  a.current s ∪ a.stored s

def after (s : σ) (es : List ε) : σ :=
  es.foldl a.step s

@[simp]
theorem after_nil : a.after s [] = s :=
  rfl

@[simp]
theorem after_cons : a.after s (e :: es) = a.after (a.step s e) es :=
  rfl

@[simp]
theorem after_append : a.after s (es ++ fs) = a.after (a.after s es) fs := by
  simp [after]

-- Every value that is current somewhere on the run is held from there to its end.
def Kept (s : σ) (es : List ε) : Prop :=
  ∀ pre mid post, es = pre ++ mid ++ post → a.current (a.after s pre) ⊆ a.held (a.after s (pre ++ mid))

-- Every step of the run holds what was current before it.
def Archives (s : σ) (es : List ε) : Prop :=
  ∀ pre e post, es = pre ++ e :: post →
    a.current (a.after s pre) ⊆ a.held (a.step (a.after s pre) e)

variable {a} {s : σ}

theorem inv_after (h : a.Inv s) (es : List ε) : a.Inv (a.after s es) := by
  induction es generalizing s
  case nil          => exact h
  case cons e es ih => exact ih (a.inv_step e h)

theorem held_step (h : a.Inv s) (hc : a.current s ⊆ a.held (a.step s e)) :
    a.held s ⊆ a.held (a.step s e) :=
  Set.union_subset hc (a.keeps e h)

theorem Archives.tail (h : a.Archives s (e :: es)) : a.Archives (a.step s e) es := by
  intro pre f post he
  exact h (e :: pre) f post (by rw [he, List.cons_append])

theorem Archives.held_after (h : a.Archives s es) (hs : a.Inv s) (hp : es = pre ++ post) :
    a.held s ⊆ a.held (a.after s pre) := by
  induction pre generalizing s es
  case nil => exact Set.Subset.rfl
  case cons e pre ih =>
    subst hp
    have hc := held_step hs <| h [] e (pre ++ post) rfl
    exact hc.trans <| ih h.tail (a.inv_step e hs) rfl

theorem Archives.after (h : a.Archives s (pre ++ es)) : a.Archives (a.after s pre) es := by
  intro pre' e post he
  rw [← after_append]
  exact h (pre ++ pre') e post (by rw [he, List.append_assoc])

-- Nothing is ever lost exactly if no step loses what it replaces.
theorem kept_iff_archives (hs : a.Inv s) : a.Kept s es ↔ a.Archives s es := by
  constructor
  case mp =>
    intro h pre e post he
    have := h pre [e] post (by simp [he])
    simpa using this
  case mpr =>
    intro h pre mid post he
    subst he
    rw [List.append_assoc] at h
    have hh := h.after.held_after (inv_after hs pre) rfl
    rw [after_append]
    exact Set.subset_union_left.trans hh

end Archive
