import Mathlib

-- What a computation that may fail has gone through when it has come to its end.
namespace Except

variable {ε α β : Type} {x : Except ε α} {f : α → Except ε β} {b : β} {e : ε}

theorem bind_eq_ok : x >>= f = .ok b ↔ ∃ a, x = .ok a ∧ f a = .ok b := by
  cases x <;> simp [bind, Except.bind]

theorem bind_eq_error : x >>= f = .error e ↔ x = .error e ∨ ∃ a, x = .ok a ∧ f a = .error e := by
  cases x <;> simp [bind, Except.bind]

theorem throw_bind : (throw e : Except ε α) >>= f = .error e :=
  rfl

theorem pure_eq_ok {a c : α} : (pure a : Except ε α) = .ok c ↔ a = c :=
  ⟨Except.ok.inj, congrArg Except.ok⟩

theorem toOption_eq_some_iff {x : Except ε α} {a : α} : x.toOption = some a ↔ x = .ok a := by
  cases x
  case error => exact iff_of_false nofun nofun
  case ok    => exact ⟨fun h => congrArg Except.ok <| Option.some.inj h, fun h => congrArg Except.toOption h⟩

-- A check before what comes next.
theorem guard_eq_ok {c : Prop} [Decidable c] {f : PUnit → Except ε β} :
    (if c then throw e >>= f else f ⟨⟩) = .ok b ↔ ¬c ∧ f ⟨⟩ = .ok b := by
  by_cases hc : c
  case pos => simp [hc, throw_bind]
  case neg => simp [hc]

theorem guard_eq_error {c : Prop} [Decidable c] {f : PUnit → Except ε β} {e' : ε} :
    (if c then throw e >>= f else f ⟨⟩) = .error e' ↔ (c ∧ e = e') ∨ (¬c ∧ f ⟨⟩ = .error e') := by
  by_cases hc : c
  case pos => simp [hc, throw_bind]
  case neg => simp [hc]

theorem forM_eq_ok {f : α → Except ε Unit} {as : List α} :
    as.forM f = .ok () ↔ ∀ a ∈ as, f a = .ok () := by
  induction as
  case nil => exact iff_of_true rfl fun _ h => by cases h
  case cons a as ih =>
    have hcons : (a :: as).forM f = f a >>= fun _ => as.forM f := rfl
    rw [hcons, bind_eq_ok, List.forall_mem_cons, ← ih]
    exact ⟨fun ⟨_, h, hrest⟩ => ⟨h, hrest⟩, fun ⟨h, hrest⟩ => ⟨⟨⟩, h, hrest⟩⟩

-- What a loop that has come to its end has done, from what one turn of it does.
theorem foldlM_induction {σ : Type} {f : σ → α → Except ε σ} {motive : List α → σ → σ → Prop}
    (nil : ∀ s, motive [] s s)
    (cons : ∀ a as s t u, f s a = .ok t → motive as t u → motive (a :: as) s u) {as : List α}
    {s s' : σ} (h : as.foldlM f s = .ok s') : motive as s s' := by
  induction as generalizing s
  case nil =>
    have heq : s = s' := pure_eq_ok.mp h
    exact heq ▸ nil s
  case cons a as ih =>
    rw [List.foldlM_cons] at h
    have ⟨t, ht, hrest⟩ := bind_eq_ok.mp h
    exact cons a as s t s' ht <| ih hrest

theorem foldlM_pure_eq_ok {σ : Type} {f : σ → α → σ} {as : List α} {s s' : σ}
    (h : as.foldlM (fun s a => (pure (f s a) : Except ε σ)) s = .ok s') : s' = as.foldl f s := by
  induction as generalizing s
  case nil          => exact (pure_eq_ok.mp h).symm
  case cons a as ih => exact ih h

theorem flatMapM_eq_ok {f : α → Except ε (List β)} {as : List α} {bs : List β} :
    as.flatMapM f = .ok bs ↔ ∃ parts, List.Forall₂ (fun a part => f a = .ok part) as parts ∧ bs = parts.flatten := by
  induction as generalizing bs
  case nil          => simp [eq_comm, pure, Except.pure, List.forall₂_nil_left_iff]
  case cons a as ih =>
    simp only [List.flatMapM_cons, bind_eq_ok, pure_eq_ok, ih, List.forall₂_cons_left_iff]
    constructor
    case mp =>
      intro ⟨part, hpart, _, ⟨parts, hparts, hrest⟩, hbs⟩
      exact ⟨part :: parts, ⟨part, parts, hpart, hparts, rfl⟩, by rw [← hbs, hrest, List.flatten_cons]⟩
    case mpr =>
      intro ⟨_, ⟨part, parts, hpart, hparts, heq⟩, hbs⟩
      exact ⟨part, hpart, _, ⟨parts, hparts, rfl⟩, by rw [hbs, heq, List.flatten_cons]⟩

end Except

-- A procedure over a state `σ` that can fail with an `ε`. The state reached before the failure
-- survives it, as it does for code that returns early from a sequence of durable effects.
def Proc (σ ε α : Type) := σ → Except ε α × σ

namespace Proc

variable {σ ε α β : Type}

protected def pure (a : α) : Proc σ ε α :=
  fun s => (.ok a, s)

protected def bind (p : Proc σ ε α) (k : α → Proc σ ε β) : Proc σ ε β := fun s =>
  match p s with
  | (.ok a, t)    => k a t
  | (.error e, t) => (.error e, t)

instance : Monad (Proc σ ε) where
  pure := Proc.pure
  bind := Proc.bind

def fail (e : ε) : Proc σ ε α :=
  fun s => (.error e, s)

def gets (f : σ → α) : Proc σ ε α :=
  fun s => (.ok (f s), s)

def modify (f : σ → σ) : Proc σ ε Unit :=
  fun s => (.ok (), f s)

-- Runs `p` and hands its outcome to the caller instead of failing.
def attempt (p : Proc σ ε α) : Proc σ ε (Except ε α) := fun s =>
  match p s with
  | (r, t) => (.ok r, t)

def ofExcept : Except ε α → Proc σ ε α
  | .ok a    => Proc.pure a
  | .error e => fail e

theorem bind_def (p : Proc σ ε α) (k : α → Proc σ ε β) : p >>= k = Proc.bind p k :=
  rfl

theorem pure_def (a : α) : (pure a : Proc σ ε α) = Proc.pure a :=
  rfl

-- The weakest precondition of `p` for a postcondition on success and one on failure.
def wp (p : Proc σ ε α) (Q : α → σ → Prop) (E : ε → σ → Prop) (s : σ) : Prop :=
  match p s with
  | (.ok a, t)    => Q a t
  | (.error e, t) => E e t

section Rules

variable {p : Proc σ ε α} {k : α → Proc σ ε β} {Q Q' : α → σ → Prop} {E E' : ε → σ → Prop} {s : σ}

theorem wp_of_ok (h : p s = (.ok a, t)) : wp p Q E s ↔ Q a t := by
  simp [wp, h]

theorem wp_of_error (h : p s = (.error e, t)) : wp p Q E s ↔ E e t := by
  simp [wp, h]

theorem eq_ok_of_wp (h : wp p (fun a _ => a = b) (fun _ _ => False) s) :
    p s = (.ok b, (p s).snd) := by
  unfold wp at h
  split at h <;> simp_all

instance [∀ a t, Decidable (Q a t)] [∀ e t, Decidable (E e t)] : Decidable (wp p Q E s) :=
  match h : p s with
  | (.ok a, t)    => decidable_of_iff (Q a t) (wp_of_ok h).symm
  | (.error e, t) => decidable_of_iff (E e t) (wp_of_error h).symm

@[simp]
theorem wp_pure : wp (pure a : Proc σ ε α) Q E s ↔ Q a s :=
  Iff.rfl

@[simp]
theorem wp_fail : wp (fail e : Proc σ ε α) Q E s ↔ E e s :=
  Iff.rfl

@[simp]
theorem wp_gets : wp (gets f : Proc σ ε α) Q E s ↔ Q (f s) s :=
  Iff.rfl

@[simp]
theorem wp_modify {Q : Unit → σ → Prop} : wp (modify f : Proc σ ε Unit) Q E s ↔ Q () (f s) :=
  Iff.rfl

@[simp]
theorem wp_bind {Q : β → σ → Prop} :
    wp (p >>= k) Q E s ↔ wp p (fun a t => wp (k a) Q E t) E s := by
  simp only [wp, bind_def, Proc.bind]
  rcases p s with ⟨r, t⟩
  cases r <;> rfl

@[simp]
theorem wp_attempt {Q : Except ε α → σ → Prop} {E' : ε → σ → Prop} :
    wp (attempt p) Q E' s ↔ wp p (fun a => Q (.ok a)) (fun e => Q (.error e)) s := by
  simp only [wp, attempt]
  rcases p s with ⟨r, t⟩
  cases r <;> rfl

@[simp]
theorem wp_ofExcept_ok : wp (ofExcept (.ok a) : Proc σ ε α) Q E s ↔ Q a s :=
  Iff.rfl

@[simp]
theorem wp_ofExcept_error : wp (ofExcept (.error e) : Proc σ ε α) Q E s ↔ E e s :=
  Iff.rfl

theorem wp_mono (h : wp p Q E s) (hq : ∀ a t, Q a t → Q' a t) (he : ∀ e t, E e t → E' e t) :
    wp p Q' E' s := by
  unfold wp at h ⊢
  split <;> simp_all

theorem wp_and (h : wp p Q E s) (h' : wp p Q' E' s) :
    wp p (fun a t => Q a t ∧ Q' a t) (fun e t => E e t ∧ E' e t) s := by
  unfold wp at h h' ⊢
  split <;> simp_all

theorem wp_ite {c : Prop} [Decidable c] {p q : Proc σ ε α} :
    wp (if c then p else q) Q E s ↔ (c → wp p Q E s) ∧ (¬c → wp q Q E s) := by
  split <;> simp_all

theorem bind_pure_snd {b : β} : ((p >>= fun _ => pure b) s).snd = (p s).snd := by
  simp only [bind_def, Proc.bind]
  rcases p s with ⟨r, t⟩
  cases r <;> rfl

theorem wp_forM_nil {f : α → Proc σ ε PUnit} {Q : PUnit → σ → Prop} :
    wp ([].forM f) Q E s ↔ Q ⟨⟩ s :=
  Iff.rfl

theorem wp_forM_cons {f : α → Proc σ ε PUnit} {Q : PUnit → σ → Prop} :
    wp ((a :: as).forM f) Q E s ↔ wp (f a) (fun _ t => wp (as.forM f) Q E t) E s :=
  wp_bind

end Rules

-- `p` keeps `I`: whatever its outcome, `I` holds afterwards if it held before.
structure Keeps (I : σ → Prop) (p : Proc σ ε α) : Prop where
  run : ∀ s, I s → wp p (fun _ => I) (fun _ => I) s

namespace Keeps

variable {I : σ → Prop} {p : Proc σ ε α} {k : α → Proc σ ε β}

theorem pure (a : α) : Keeps I (Pure.pure a : Proc σ ε α) :=
  ⟨fun _ h => h⟩

theorem fail (e : ε) : Keeps I (Proc.fail e : Proc σ ε α) :=
  ⟨fun _ h => h⟩

theorem gets (f : σ → α) : Keeps I (Proc.gets f : Proc σ ε α) :=
  ⟨fun _ h => h⟩

theorem ofExcept (r : Except ε α) : Keeps I (Proc.ofExcept r : Proc σ ε α) := by
  cases r
  case ok a    => exact pure a
  case error e => exact fail e

theorem bind (hp : Keeps I p) (hk : ∀ a, Keeps I (k a)) : Keeps I (p >>= k) :=
  ⟨fun s h => wp_bind.mpr <| wp_mono (hp.run s h) (fun a t h => (hk a).run t h) (fun _ _ h => h)⟩

theorem attempt (hp : Keeps I p) : Keeps I (Proc.attempt p) :=
  ⟨fun s h => wp_attempt.mpr <| hp.run s h⟩

-- The state after `p`, whatever its outcome.
theorem final (hp : Keeps I p) (h : I s) : I (p s).snd := by
  have := hp.run s h
  unfold wp at this
  split at this <;> simp_all

end Keeps
end Proc

-- Loops over lists in a state that errors keep. `I` is what holds of the rest of the list and the state.
namespace Loops

variable {ε σ α : Type} {f : α → EStateM ε σ PUnit} {g : σ → α → σ} {I : List α → σ → Prop} {B : α → Prop}
  {l : List α} {s : σ}

theorem forM_cons_ok {a : α} (h : f a s = .ok ⟨⟩ s') : (a :: l).forM f s = l.forM f s' := by
  simp only [List.forM_eq_forM, List.forM_cons, bind, EStateM.bind, h]

theorem forM_cons_error {a : α} (h : f a s = .error e s') : (a :: l).forM f s = .error e s' := by
  simp only [List.forM_eq_forM, List.forM_cons, bind, EStateM.bind, h]

-- What a loop does whose steps all succeed.
theorem forM_ok (h : ∀ a l s, I (a :: l) s → f a s = .ok ⟨⟩ (g s a) ∧ I l (g s a)) (hs : I l s) :
    l.forM f s = .ok ⟨⟩ (l.foldl g s) := by
  induction l generalizing s
  case nil         => rfl
  case cons a l ih =>
    have ⟨hok, hrest⟩ := h a l s hs
    rw [forM_cons_ok hok, List.foldl_cons]
    exact ih hrest

-- A loop fails with the first of its steps that does.
theorem forM_error (h : ∀ a l s, I (a :: l) s → ¬B a → f a s = .ok ⟨⟩ (g s a) ∧ I l (g s a))
    (hbad : ∀ a l s, I (a :: l) s → B a → ∃ e s', f a s = .error e s') (hs : I l s) (ha : ∃ a ∈ l, B a) :
    ∃ e s', l.forM f s = .error e s' := by
  induction l generalizing s
  case nil         => simp at ha
  case cons b l ih =>
    by_cases hb : B b
    case pos =>
      have ⟨e, s', he⟩ := hbad b l s hs hb
      exact ⟨e, s', forM_cons_error he⟩
    case neg =>
      have ⟨hok, hrest⟩ := h b l s hs hb
      have hl : ∃ a ∈ l, B a := by simpa [hb] using ha
      rw [forM_cons_ok hok]
      exact ih hrest hl

end Loops
