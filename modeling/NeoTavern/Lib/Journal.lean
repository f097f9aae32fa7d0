import Mathlib

structure Commit (ι σ : Type) where
  label : ι
  state : σ

-- A durable store together with everything that was ever committed to it, newest first. A crash
-- loses the commits after some point and nothing else.
structure Journal (ι σ : Type) where
  base    : σ
  commits : List (Commit ι σ)

namespace Journal

variable {ι σ : Type}

def state (j : Journal ι σ) : σ :=
  match j.commits with
  | []     => j.base
  | c :: _ => c.state

def push (j : Journal ι σ) (l : ι) (s : σ) : Journal ι σ :=
  { j with commits := ⟨l, s⟩ :: j.commits }

@[simp]
theorem push_state (j : Journal ι σ) : (j.push l s).state = s :=
  rfl

-- The store after a crash that `n` commits did not survive.
def crash (j : Journal ι σ) (n : Nat) : Journal ι σ :=
  { j with commits := j.commits.drop n }

-- `k` comes from `j` by commits each of which `S` allows in the state it was made in.
inductive Grows (S : σ → ι → σ → Prop) (j : Journal ι σ) : Journal ι σ → Prop
  | refl : Grows S j j
  | push : Grows S j k → S k.state l s → Grows S j (k.push l s)

namespace Grows

variable {S S' : σ → ι → σ → Prop} {i j k : Journal ι σ}

theorem single (h : S j.state l s) : Grows S j (j.push l s) :=
  .push .refl h

theorem trans (h₁ : Grows S i j) (h₂ : Grows S j k) : Grows S i k := by
  induction h₂
  case refl         => exact h₁
  case push hs ih   => exact .push ih hs

theorem mono (h : Grows S j k) (hs : ∀ s l t, S s l t → S' s l t) : Grows S' j k := by
  induction h
  case refl       => exact .refl
  case push hp ih => exact .push ih (hs _ _ _ hp)

-- What every allowed commit preserves holds of the whole journal.
theorem preserves {I : Journal ι σ → Prop} (h : Grows S j k)
    (hI : ∀ i l s, I i → S i.state l s → I (i.push l s)) (hj : I j) : I k := by
  induction h
  case refl       => exact hj
  case push hp ih => exact hI _ _ _ ih hp

theorem preserves_state {I : σ → Prop} (h : Grows S j k) (hI : ∀ s l t, I s → S s l t → I t)
    (hj : I j.state) : I k.state :=
  h.preserves (I := fun j => I j.state) (fun _ _ _ => hI _ _ _) hj

-- A preorder that every allowed commit respects relates the first state to the last.
theorem relates {R : σ → σ → Prop} (h : Grows S j k) (refl : ∀ s, R s s)
    (trans : ∀ {s t u}, R s t → R t u → R s u) (step : ∀ {s l t}, S s l t → R s t) :
    R j.state k.state := by
  induction h
  case refl       => exact refl _
  case push hp ih => exact trans ih (step hp)

theorem base_eq (h : Grows S j k) : k.base = j.base := by
  induction h
  case refl    => rfl
  case push ih => exact ih

theorem suffix (h : Grows S j k) : j.commits <:+ k.commits := by
  induction h
  case refl    => exact List.suffix_rfl
  case push ih => exact ih.trans <| List.suffix_cons ..

-- Two readings of the same growth.
theorem and (h : Grows S j k) (h' : Grows S' j k) : Grows (fun s l t => S s l t ∧ S' s l t) j k := by
  induction h
  case refl => exact .refl
  case push k l s hg hs ih =>
    generalize hk : k.push l s = k' at h'
    cases h'
    case refl =>
      have hsuffix := hg.suffix.length_le
      rw [← hk, Journal.push, List.length_cons] at hsuffix
      omega
    case push k' l' s' hg' hs' =>
      have ⟨hbase, hcommits⟩ := Journal.mk.inj hk
      have ⟨hcommit, htail⟩  := List.cons.inj hcommits
      obtain ⟨rfl, rfl⟩      := Commit.mk.inj hcommit
      obtain rfl : k = k' := by
        cases k
        cases k'
        exact congrArg₂ Journal.mk hbase htail
      exact .push (ih hg') ⟨hs, hs'⟩

-- The points between the first journal and the last lie on the way.
theorem before (h : Grows S i j) (hj : j.commits = cs ++ ds) (hd : i.commits <:+ ds) :
    Grows S i ⟨j.base, ds⟩ := by
  induction h generalizing cs
  case refl =>
    have hl := hd.length_le
    rw [hj, List.length_append] at hl
    have hcs : cs = [] := List.length_eq_zero_iff.mp <| by omega
    have hds : i.commits = ds := by simpa [hcs] using hj
    exact hds ▸ .refl
  case push k l s hg hs ih =>
    cases cs
    case nil  =>
      obtain rfl : (k.push l s).commits = ds := hj
      exact .push hg hs
    case cons => exact ih <| List.cons.inj hj |>.right

-- Every commit made on the way was allowed in the state that the older ones had led to.
theorem step (h : Grows S i j) (hj : j.commits = cs ++ c :: ds) (hd : i.commits <:+ ds) :
    S (state ⟨j.base, ds⟩) c.label c.state := by
  induction h generalizing cs
  case refl =>
    have hl := hd.length_le
    rw [hj, List.length_append, List.length_cons] at hl
    omega
  case push k l s hg hs ih =>
    cases cs
    case cons => exact ih <| List.cons.inj hj |>.right
    case nil  =>
      have ⟨hc, hk⟩ := List.cons.inj hj
      subst hc hk
      exact hs

-- A crash leaves an older point of the growth behind.
theorem crash (h : Grows S ⟨b, []⟩ j) (n : Nat) : Grows S ⟨b, []⟩ (j.crash n) := by
  induction h generalizing n
  case refl => simpa [Journal.crash] using .refl
  case push hp ih =>
    cases n
    case zero   => exact .push (by simpa [Journal.crash] using ih 0) hp
    case succ n => exact ih n

end Grows
end Journal
