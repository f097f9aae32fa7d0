import Mathlib

-- Runs of a state machine: what holds after each of its steps.
namespace Runs

variable {σ ε : Type} {step : σ → ε → σ} {good inv : σ → Prop} {ok : σ → ε → Prop} {s : σ}
  {es fs : List ε} {e : ε}

-- A property of the states that a run goes through.
def Throughout (step : σ → ε → σ) (good : σ → Prop) (s : σ) (es : List ε) : Prop :=
  ∀ pre, pre <+: es → good (pre.foldl step s)

-- A condition on each step and on the state before it.
def Meets (step : σ → ε → σ) (ok : σ → ε → Prop) : σ → List ε → Prop
  | _, []      => True
  | s, e :: es => ok s e ∧ Meets step ok (step s e) es

instance decidableMeets [h : ∀ s e, Decidable (ok s e)] : ∀ s es, Decidable (Meets step ok s es)
  | _, []      => isTrue trivial
  | s, e :: es => @instDecidableAnd _ _ (h s e) (decidableMeets (step s e) es)

theorem throughout_nil : Throughout step good s [] ↔ good s := by
  constructor
  · intro h
    exact h [] List.prefix_rfl
  · intro h pre hpre
    rwa [List.prefix_nil.mp hpre]

theorem throughout_cons : Throughout step good s (e :: es) ↔
    good s ∧ Throughout step good (step s e) es := by
  constructor
  · intro h
    refine ⟨h [] List.nil_prefix, fun pre hpre => ?_⟩
    exact h (e :: pre) <| List.cons_prefix_cons.mpr ⟨rfl, hpre⟩
  · intro ⟨hs, h⟩ pre hpre
    cases pre
    case nil => exact hs
    case cons e' pre =>
      obtain ⟨rfl, hrest⟩ := List.cons_prefix_cons.mp hpre
      exact h pre hrest

theorem Throughout.last (h : Throughout step good s es) : good (es.foldl step s) :=
  h es List.prefix_rfl

theorem Throughout.mono {good' : σ → Prop} (h : Throughout step good s es)
    (hg : ∀ t, good t → good' t) : Throughout step good' s es :=
  fun pre hpre => hg _ <| h pre hpre

theorem Meets.and {ok' : σ → ε → Prop} (h : Meets step ok s es) (h' : Meets step ok' s es) :
    Meets step (fun s e => ok s e ∧ ok' s e) s es := by
  induction es generalizing s
  case nil          => trivial
  case cons e es ih => exact ⟨⟨h.left, h'.left⟩, ih h.right h'.right⟩

-- What each step keeps holds throughout.
theorem throughout_of_invariant (hstep : ∀ t e, inv t → inv (step t e)) (hs : inv s) :
    Throughout step inv s es := by
  induction es generalizing s
  case nil          => exact throughout_nil.mpr hs
  case cons e es ih => exact throughout_cons.mpr ⟨hs, ih <| hstep s e hs⟩

theorem throughout_of_meets (hstep : ∀ t e, good t → ok t e → good (step t e)) (hs : good s)
    (h : Meets step ok s es) : Throughout step good s es := by
  induction es generalizing s
  case nil          => exact throughout_nil.mpr hs
  case cons e es ih => exact throughout_cons.mpr ⟨hs, ih (hstep s e hs h.left) h.right⟩

-- Where a step keeps the property exactly under the condition, so does a run.
theorem throughout_iff_meets (hinv : ∀ t e, inv t → inv (step t e))
    (hstep : ∀ t e, inv t → good t → (good (step t e) ↔ ok t e)) (hi : inv s) (hs : good s) :
    Throughout step good s es ↔ Meets step ok s es := by
  induction es generalizing s
  case nil => exact iff_of_true (throughout_nil.mpr hs) trivial
  case cons e es ih =>
    rw [throughout_cons]
    constructor
    · intro ⟨_, h⟩
      have ht : good (step s e) := h [] List.nil_prefix
      exact ⟨(hstep s e hi hs).mp ht, (ih (hinv s e hi) ht).mp h⟩
    · intro ⟨hok, h⟩
      have ht := (hstep s e hi hs).mpr hok
      exact ⟨hs, (ih (hinv s e hi) ht).mpr h⟩

-- The same of a property of the states together with one of the steps.
theorem throughout_and_meets_iff {sep : σ → ε → Prop} (hinv : ∀ t e, inv t → inv (step t e))
    (hstep : ∀ t e, inv t → good t → (good (step t e) ∧ sep t e ↔ ok t e)) (hi : inv s) (hs : good s) :
    Throughout step good s es ∧ Meets step sep s es ↔ Meets step ok s es := by
  induction es generalizing s
  case nil => exact iff_of_true ⟨throughout_nil.mpr hs, trivial⟩ trivial
  case cons e es ih =>
    rw [throughout_cons]
    constructor
    · intro ⟨⟨_, h⟩, hsep, hmeets⟩
      have ht : good (step s e) := h [] List.nil_prefix
      exact ⟨(hstep s e hi hs).mp ⟨ht, hsep⟩, (ih (hinv s e hi) ht).mp ⟨h, hmeets⟩⟩
    · intro ⟨hok, h⟩
      have ⟨ht, hsep⟩ := (hstep s e hi hs).mpr hok
      have ⟨hall, hmeets⟩ := (ih (hinv s e hi) ht).mpr h
      exact ⟨⟨hs, hall⟩, hsep, hmeets⟩

-- What is lost for good holds throughout if it holds in the end.
theorem throughout_of_last (hinv : ∀ t e, inv t → inv (step t e))
    (hback : ∀ t e, inv t → good (step t e) → good t) (hi : inv s) (h : good (es.foldl step s)) :
    Throughout step good s es := by
  induction es generalizing s
  case nil          => exact throughout_nil.mpr h
  case cons e es ih =>
    have hrest : Throughout step good (step s e) es := ih (hinv s e hi) h
    have hs : good s := hback s e hi <| hrest [] List.nil_prefix
    exact throughout_cons.mpr ⟨hs, hrest⟩

theorem throughout_iff_meets_of_step (hstep : ∀ t e, good t → (good (step t e) ↔ ok t e)) (hs : good s) :
    Throughout step good s es ↔ Meets step ok s es := by
  have hinv (t : σ) (e : ε) (h : (fun _ => True) t) : (fun _ => True) (step t e) := h
  exact throughout_iff_meets hinv (fun t e _ => hstep t e) trivial hs

end Runs
