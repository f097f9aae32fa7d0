import Mathlib

namespace Lists

variable {α β : Type}

theorem idxOf_pairwise [DecidableEq α] {l : List α} (h : l.Nodup) : l.Pairwise (l.idxOf · < l.idxOf ·) := by
  apply List.pairwise_iff_getElem.mpr
  intro i j hi hj hij
  rw [h.idxOf_getElem i hi, h.idxOf_getElem j hj]
  exact hij

theorem filter_flatMap_of_key {κ : Type} [DecidableEq κ] {f : α → List β} {key : β → κ} {k : α → κ} {l : List α}
    (hkey : ∀ a ∈ l, ∀ b ∈ f a, key b = k a) (hnodup : (l.map k).Nodup) (ha : a ∈ l) :
    (l.flatMap f).filter (key · = k a) = f a := by
  induction l
  case nil => cases ha
  case cons a' l ih =>
    have ⟨hout, hl⟩ := List.nodup_cons.mp hnodup
    have hrest : ∀ b ∈ l, ∀ c ∈ f b, key c = k b := fun b hb => hkey b <| List.mem_cons_of_mem _ hb
    rw [List.flatMap_cons, List.filter_append]
    cases List.mem_cons.mp ha
    case inl he =>
      subst he
      have hself : (f a).filter (key · = k a) = f a :=
        List.filter_eq_self.mpr fun b hb => decide_eq_true <| hkey a List.mem_cons_self b hb
      have hnone : (l.flatMap f).filter (key · = k a) = [] := by
        apply List.filter_eq_nil_iff.mpr
        intro c hc he
        have ⟨b, hb, hcb⟩ := List.mem_flatMap.mp hc
        rw [hrest b hb c hcb, decide_eq_true_eq] at he
        exact hout <| List.mem_map.mpr ⟨b, hb, he⟩
      rw [hself, hnone, List.append_nil]
    case inr hmem =>
      have hnone : (f a').filter (key · = k a) = [] := by
        apply List.filter_eq_nil_iff.mpr
        intro c hc he
        rw [hkey a' List.mem_cons_self c hc, decide_eq_true_eq] at he
        exact hout <| he ▸ List.mem_map_of_mem hmem
      rw [hnone, List.nil_append, ih hrest hl hmem]

section Related

variable {R S : α → β → Prop} {l : List α} {l' : List β}

theorem exists_of_forall₂ (h : List.Forall₂ R l l') (hb : b ∈ l') : ∃ a ∈ l, R a b := by
  induction h
  case nil => cases hb
  case cons hr _ ih =>
    cases List.mem_cons.mp hb
    case inl he => exact ⟨_, List.mem_cons_self, he ▸ hr⟩
    case inr hb =>
      have ⟨a, ha, hr⟩ := ih hb
      exact ⟨a, List.mem_cons_of_mem _ ha, hr⟩

theorem forall₂_iff_forall {p : α → Prop} (h : List.Forall₂ R l l') (hp : ∀ a, ∀ b ∈ l', R a b → (S a b ↔ p a)) :
    List.Forall₂ S l l' ↔ ∀ a ∈ l, p a := by
  induction h
  case nil => exact iff_of_true .nil fun _ h => by cases h
  case cons hr _ ih =>
    have hrest := ih fun a b hb => hp a b <| List.mem_cons_of_mem _ hb
    rw [List.forall₂_cons, List.forall_mem_cons, hp _ _ List.mem_cons_self hr, hrest]

end Related

theorem filter_or_perm {p q : α → Bool} {l : List α} (h : ∀ a ∈ l, p a → ¬q a) :
    (l.filter fun a => p a || q a).Perm (l.filter p ++ l.filter q) := by
  induction l
  case nil => exact .nil
  case cons a l ih =>
    have hrest := ih fun b hb => h b <| List.mem_cons_of_mem _ hb
    have ha := h a List.mem_cons_self
    by_cases hp : p a
    case pos =>
      have hq : q a = false := by simpa using ha hp
      simpa [hp, hq] using hrest
    case neg =>
      by_cases hq : q a
      case pos => simpa [hp, hq] using (hrest.cons a).trans List.perm_middle.symm
      case neg => simpa [hp, hq] using hrest

section Lexicographic

variable [LT α] {xs ys xs' ys' : List α}

theorem append_lt_of_lt (hl : xs.length = ys.length) (h : xs < ys) : xs ++ xs' < ys ++ ys' := by
  induction xs generalizing ys
  case nil =>
    cases ys
    case nil  => cases h
    case cons => cases hl
  case cons x xs ih =>
    cases ys
    case nil => cases hl
    case cons y ys =>
      rw [List.cons_lt_cons_iff] at h
      rw [List.cons_append, List.cons_append, List.cons_lt_cons_iff]
      exact h.imp_right fun ⟨he, h⟩ => ⟨he, ih (Nat.succ.inj hl) h⟩

theorem append_lt_append_left (h : xs' < ys') : xs ++ xs' < xs ++ ys' := by
  induction xs
  case nil => exact h
  case cons ih => exact List.cons_lt_cons_iff.mpr <| .inr ⟨rfl, ih⟩

end Lexicographic

section EraseDups

variable [BEq α]

theorem eraseDups_sublist (l : List α) : l.eraseDups.Sublist l := by
  match l with
  | []     => exact List.Sublist.refl _
  | a :: l =>
    rw [List.eraseDups_cons]
    have hrest := eraseDups_sublist (l.filter fun b => !b == a)
    exact .cons_cons a <| hrest.trans List.filter_sublist
termination_by l.length
decreasing_by
  have := List.length_filter_le (fun b => !b == a) l
  exact Nat.lt_succ_of_le this

variable [LawfulBEq α]

theorem nodup_eraseDups (l : List α) : l.eraseDups.Nodup := by
  match l with
  | []     => exact List.nodup_nil
  | a :: l =>
    rw [List.eraseDups_cons, List.nodup_cons]
    apply And.intro ?_ <| nodup_eraseDups _
    rw [List.mem_eraseDups, List.mem_filter]
    intro h
    simp at h
termination_by l.length
decreasing_by
  have := List.length_filter_le (fun b => !b == a) l
  exact Nat.lt_succ_of_le this

theorem eraseDups_of_nodup {l : List α} (h : l.Nodup) : l.eraseDups = l := by
  induction l
  case nil => rfl
  case cons a l ih =>
    have ⟨ha, hl⟩ := List.nodup_cons.mp h
    have hfilter : l.filter (fun b => !b == a) = l := by
      apply List.filter_eq_self.mpr
      intro b hb
      have hne : b ≠ a := fun he => ha <| he ▸ hb
      simpa using hne
    rw [List.eraseDups_cons, hfilter, ih hl]

theorem length_eraseDups_eq_iff {l : List α} : l.eraseDups.length = l.length ↔ l.Nodup := by
  constructor
  case mp =>
    intro h
    have he := (eraseDups_sublist l).eq_of_length h
    exact he ▸ nodup_eraseDups l
  case mpr => exact fun h => by rw [eraseDups_of_nodup h]

example : [2, 1, 2].eraseDups.length ≠ [2, 1, 2].length := by
  decide +kernel

end EraseDups

-- The places of the elements of a list.
theorem pairwise_zipIdx {l : List α} {n : Nat} : (l.zipIdx n).Pairwise (·.snd < ·.snd) := by
  have h : ((l.zipIdx n).map (·.snd)).Pairwise (· < ·) := by
    rw [List.zipIdx_map_snd]
    exact List.pairwise_lt_range'
  exact List.pairwise_map.mp h

theorem map_fst_filter_zipIdx (l : List α) (p : α → Bool) :
    (l.zipIdx.filter fun e => p e.fst).map (·.fst) = l.filter p := by
  conv_rhs => rw [← List.zipIdx_map_fst 0 l, List.filter_map]
  rfl

theorem countP_range_le {n m : Nat} : (List.range n).countP (fun i => m ≤ i) = n - m := by
  induction n
  case zero      => simp
  case succ n ih =>
    rw [List.range_succ, List.countP_append, ih, List.countP_singleton]
    by_cases h : m ≤ n
    case pos => simp [h]; omega
    case neg => simp [h]; omega

theorem forall₂_concat {R : α → β → Prop} {l : List α} {a : α} {ys : List β}
    (h : List.Forall₂ R (l ++ [a]) ys) : ∃ front b, List.Forall₂ R l front ∧ R a b ∧ ys = front ++ [b] := by
  induction l generalizing ys
  case nil =>
    cases h
    case cons b ys hab hys =>
      cases hys
      exact ⟨[], b, .nil, hab, rfl⟩
  case cons x l ih =>
    cases h
    case cons y ys hxy hys =>
      obtain ⟨front, b, hfront, hab, rfl⟩ := ih hys
      exact ⟨y :: front, b, .cons hxy hfront, hab, rfl⟩

-- The place of an element is the one of its key, when the keys are distinct.
theorem zipIdx_eq_map_idxOf [DecidableEq β] {l : List α} {f : α → β} (h : (l.map f).Nodup) :
    l.zipIdx = l.map fun a => (a, (l.map f).idxOf (f a)) := by
  apply List.ext_getElem
  case hl => simp
  case h =>
    intro i h₁ h₂
    have hi : i < (l.map f).length := by simpa using h₁
    have hidx := h.idxOf_getElem i hi
    simp only [List.getElem_map] at hidx
    simp [hidx]

theorem map_zipIdx_one {as : List α} {g : α × Nat → β} :
    (as.zipIdx 1).map g = as.zipIdx.map fun e => g (e.fst, e.snd + 1) := by
  rw [List.zipIdx_succ, List.map_map]
  rfl

-- What the elements give that are kept, beside these elements.
theorem forall₂_filterMap (f : α → Option β) (q : β → Bool) (l : List α) :
    List.Forall₂ (fun a b => f a = some b) (l.filter fun a => (f a).any q)
      ((l.filterMap f).filter q) := by
  induction l
  case nil => exact .nil
  case cons a l ih =>
    cases hf : f a
    case none   => simpa [hf] using ih
    case some b =>
      by_cases hq : q b
      case pos => simpa [hf, hq] using ih
      case neg => simpa [hf, hq] using ih

-- The elements at some places, in whatever order the places come.
theorem filterMap_getElem?_perm {xs : List α} {is : List Nat} (h : is.Nodup) :
    (is.filterMap (xs[·]?)).Perm ((xs.zipIdx.filter (·.snd ∈ is)).map (·.fst)) := by
  have hleft : is.filterMap (xs[·]?) = (is.filter (· < xs.length)).filterMap (xs[·]?) := by
    rw [List.filterMap_filter]
    apply List.filterMap_congr
    intro i _
    by_cases hlt : i < xs.length
    case pos => simp [hlt]
    case neg => simp [hlt]
  have hright : (xs.zipIdx.filter (·.snd ∈ is)).map (·.fst) =
      ((xs.zipIdx.filter (·.snd ∈ is)).map (·.snd)).filterMap (xs[·]?) := by
    rw [List.filterMap_map, ← List.filterMap_eq_map]
    apply List.filterMap_congr
    intro e he
    exact (List.mem_zipIdx_iff_getElem?.mp (List.mem_filter.mp he).left).symm
  rw [hleft, hright]
  refine List.Perm.filterMap _ <| (List.perm_ext_iff_of_nodup (h.filter _) ?_).mpr fun i => ?_
  · have hplaces : (xs.zipIdx.map (·.snd)).Nodup := by
      rw [List.zipIdx_map_snd]
      exact List.nodup_range'
    exact hplaces.sublist <| List.filter_sublist.map _
  · simp only [List.mem_filter, List.mem_map, decide_eq_true_eq]
    constructor
    · intro ⟨hi, hlt⟩
      exact ⟨(xs[i], i), ⟨List.mem_zipIdx_iff_getElem?.mpr <| List.getElem?_eq_getElem hlt, hi⟩, rfl⟩
    · rintro ⟨e, ⟨he, hi⟩, rfl⟩
      exact ⟨hi, (List.getElem?_eq_some_iff.mp <| List.mem_zipIdx_iff_getElem?.mp he).choose⟩

example : [2, 0].filterMap (["a", "b", "c"][·]?) = ["c", "a"] := by
  decide +kernel

section Pairs

variable {l : List α} {x y : α}

-- Of two elements, one comes first.
theorem pair_sublist_or (hx : x ∈ l) (hy : y ∈ l) (hne : x ≠ y) : [x, y].Sublist l ∨ [y, x].Sublist l := by
  induction l
  case nil         => cases hx
  case cons a l ih =>
    cases List.mem_cons.mp hx
    case inl hxa =>
      subst hxa
      have hy := List.mem_of_ne_of_mem hne.symm hy
      exact .inl <| (List.singleton_sublist.mpr hy).cons_cons _
    case inr hxl =>
      cases List.mem_cons.mp hy
      case inl hya => exact .inr <| hya ▸ (List.singleton_sublist.mpr hxl).cons_cons _
      case inr hyl => exact (ih hxl hyl).imp (·.cons _) (·.cons _)

theorem eq_of_pair_sublists (hn : l.Nodup) (h : [x, y].Sublist l) (h' : [y, x].Sublist l) : x = y := by
  induction l
  case nil         => cases h
  case cons a l ih =>
    have ⟨ha, hn⟩ := List.nodup_cons.mp hn
    cases h
    case cons h      =>
      cases h'
      case cons h'      => exact ih hn h h'
      case cons_cons h' => exact absurd (h.subset <| by simp) ha
    case cons_cons h =>
      cases h'
      case cons h'      => exact absurd (h'.subset <| by simp) ha
      case cons_cons h' => rfl

end Pairs

-- Elements that the order does not tell apart stay in the order in which they come.
theorem pairwise_mergeSort_stable {le : α → α → Bool} {r : α → α → Prop} {l : List α}
    (htrans : ∀ a b c, le a b → le b c → le a c) (htotal : ∀ a b, le a b || le b a)
    (hn : l.Nodup) (hr : l.Pairwise r) : (l.mergeSort le).Pairwise fun x y => le x y ∧ (le y x → r x y) := by
  have hnodup : (l.mergeSort le).Nodup := (List.mergeSort_perm l le).nodup_iff.mpr hn
  have hsorted := List.pairwise_mergeSort htrans htotal l
  rw [List.pairwise_iff_forall_sublist] at hsorted ⊢
  intro x y hxy
  have hle := hsorted hxy
  refine ⟨hle, fun hge => ?_⟩
  have hx : x ∈ l := List.mem_mergeSort.mp <| hxy.subset <| by simp
  have hy : y ∈ l := List.mem_mergeSort.mp <| hxy.subset <| by simp
  have hne : x ≠ y := by
    rintro rfl
    have htwo := hnodup.sublist hxy
    simp at htwo
  cases pair_sublist_or hx hy hne
  case inl h => exact List.pairwise_iff_forall_sublist.mp hr h
  case inr h =>
    have hback := List.pair_sublist_mergeSort htrans htotal hge h
    exact absurd (eq_of_pair_sublists hnodup hxy hback) hne

section Taking

variable {l : List α} {p : α → Bool} {n : Nat}

theorem countP_take_le : (l.take n).countP p ≤ min n (l.countP p) := by
  have hlength := List.countP_le_length (p := p) (l := l.take n)
  have hsub := (List.take_sublist n l).countP_le (p := p)
  rw [List.length_take] at hlength
  omega

-- The first elements hold as many that satisfy `p` as they could, when no others follow or all of
-- them do.
theorem countP_take_eq_min_iff :
    (l.take n).countP p = min n (l.countP p) ↔
      (∀ x ∈ l.take n, p x) ∨ ∀ x ∈ l.drop n, ¬p x := by
  have hsplit : l.countP p = (l.take n).countP p + (l.drop n).countP p := by
    rw [← List.countP_append, List.take_append_drop]
  have hle := countP_take_le (l := l) (p := p) (n := n)
  constructor
  case mp =>
    intro h
    by_cases hz : (l.drop n).countP p = 0
    case pos => exact .inr <| List.countP_eq_zero.mp hz
    case neg =>
      have hfull : (l.take n).length ≤ n := List.length_take_le n l
      have hcount := List.countP_le_length (p := p) (l := l.take n)
      exact .inl <| List.countP_eq_length.mp (by omega)
  case mpr =>
    intro h
    cases h
    case inl h =>
      have hall := List.countP_eq_length.mpr h
      rw [List.length_take] at hall
      have hlen := List.countP_le_length (p := p) (l := l)
      omega
    case inr h =>
      have hzero := List.countP_eq_zero.mpr h
      omega

end Taking

theorem mem_of_mem_splitOn [BEq α] [LawfulBEq α] {l part : List α} {sep a : α} (hp : part ∈ l.splitOn sep)
    (ha : a ∈ part) : a ∈ l := by
  induction l generalizing part
  case nil =>
    rw [List.splitOn_nil, List.mem_singleton] at hp
    rw [hp] at ha
    exact ha
  case cons b l hi =>
    rw [List.splitOn_cons_eq_if_modifyHead] at hp
    split at hp
    case isTrue =>
      cases hp
      case head    => cases ha
      case tail hp => exact List.mem_cons_of_mem b <| hi hp ha
    case isFalse =>
      cases hs : l.splitOn sep
      case nil => exact absurd hs <| List.splitOn_ne_nil sep l
      case cons first others =>
        rw [hs] at hp hi
        cases hp
        case head =>
          cases ha
          case head    => exact List.mem_cons_self
          case tail ha => exact List.mem_cons_of_mem b <| hi List.mem_cons_self ha
        case tail hp => exact List.mem_cons_of_mem b <| hi (List.mem_cons_of_mem first hp) ha

theorem intercalate_concat {sep x : List α} {segments : List (List α)} (h : segments ≠ []) :
    sep.intercalate (segments ++ [x]) = sep.intercalate segments ++ sep ++ x := by
  induction segments
  case nil => exact absurd rfl h
  case cons a segments hi =>
    cases segments
    case nil => simp [List.intercalate_cons_cons]
    case cons b segments =>
      have hne : b :: segments ≠ [] := List.cons_ne_nil b segments
      rw [List.cons_append, List.intercalate_cons_of_ne_nil (by simp), hi hne, List.intercalate_cons_of_ne_nil hne]
      simp only [List.append_assoc]

theorem mem_intercalate {sep a : α} {parts : List (List α)} (h : a ∈ [sep].intercalate parts) :
    a = sep ∨ ∃ part ∈ parts, a ∈ part := by
  induction parts
  case nil => cases h
  case cons part parts ih =>
    cases parts
    case nil =>
      rw [List.intercalate_singleton] at h
      exact .inr ⟨part, List.mem_cons_self, h⟩
    case cons next parts =>
      rw [List.intercalate_cons_cons, List.append_assoc, List.mem_append, List.mem_append, List.mem_singleton] at h
      obtain h | h | h := h
      · exact .inr ⟨part, List.mem_cons_self, h⟩
      · exact .inl h
      · exact (ih h).imp_right fun ⟨other, hother, ha⟩ => ⟨other, List.mem_cons_of_mem _ hother, ha⟩

theorem intercalate_concat_append {sep last t : List α} {segments : List (List α)} :
    sep.intercalate (segments ++ [last]) ++ t = sep.intercalate (segments ++ [last ++ t]) := by
  by_cases h : segments = []
  case pos => simp [h]
  case neg => simp only [intercalate_concat h, List.append_assoc]

theorem not_mem_of_mem_splitOn [BEq α] [LawfulBEq α] {t s : List α} {sep : α} (h : s ∈ t.splitOn sep) :
    sep ∉ s := by
  induction t generalizing s
  case nil =>
    rw [List.splitOn_nil, List.mem_singleton] at h
    simp [h]
  case cons c t hi =>
    rw [List.splitOn_cons_eq_if_modifyHead] at h
    split at h
    case isTrue =>
      cases h
      case head   => simp
      case tail h => exact hi h
    case isFalse hc =>
      cases hs : t.splitOn sep
      case nil => exact absurd hs <| List.splitOn_ne_nil sep t
      case cons first others =>
        rw [hs] at h hi
        cases h
        case tail h => exact hi <| List.mem_cons_of_mem first h
        case head =>
          have hfirst := hi List.mem_cons_self
          have hne : c ≠ sep := by simpa using hc
          simp [hfirst, hne.symm]

theorem splitOn_eq_pair_iff [BEq α] [LawfulBEq α] {t head tail : List α} {sep : α} :
    t.splitOn sep = [head, tail] ↔ t = head ++ sep :: tail ∧ sep ∉ head ∧ sep ∉ tail := by
  constructor
  case mp =>
    intro h
    have hjoin : [sep].intercalate (t.splitOn sep) = t := List.intercalate_splitOn sep
    rw [h, List.intercalate_cons_cons, List.intercalate_singleton, List.append_assoc, List.singleton_append] at hjoin
    exact ⟨hjoin.symm, not_mem_of_mem_splitOn (h ▸ List.mem_cons_self),
      not_mem_of_mem_splitOn (h ▸ List.mem_cons_of_mem _ List.mem_cons_self)⟩
  case mpr =>
    intro ⟨ht, hhead, htail⟩
    rw [ht, List.splitOn_append_cons_self_of_not_mem hhead, List.splitOn_eq_singleton htail]

-- What stands behind the last separator.
theorem eq_of_append_cons {a b x y : List α} {c : α} (h : a ++ c :: x = b ++ c :: y) (hx : c ∉ x) (hy : c ∉ y) :
    x = y := by
  cases List.append_eq_append_iff.mp h
  case inl h =>
    have ⟨as, _, has⟩ := h
    cases as
    case nil => exact (List.cons.inj has).right
    case cons d as _ =>
      rw [(List.cons.inj has).right] at hx
      exact absurd (List.mem_append_right as List.mem_cons_self) hx
  case inr h =>
    have ⟨as, _, has⟩ := h
    cases as
    case nil => exact (List.cons.inj has).right.symm
    case cons d as _ =>
      rw [(List.cons.inj has).right] at hy
      exact absurd (List.mem_append_right as List.mem_cons_self) hy

-- An entry of a list with one more at its end is that one or stands before it.
theorem concat_eq_append_cons {l pre post : List α} {m x : α} (h : l ++ [m] = pre ++ x :: post) :
    (l = pre ∧ m = x ∧ post = []) ∨ ∃ post', l = pre ++ x :: post' ∧ post = post' ++ [m] := by
  cases List.eq_nil_or_concat' post
  case inl hnil =>
    rw [hnil] at h
    have ⟨hpre, hlast⟩ := List.append_inj' h rfl
    exact .inl ⟨hpre, (List.cons.inj hlast).left, hnil⟩
  case inr hconcat =>
    have ⟨post', last, heq⟩ := hconcat
    rw [heq, ← List.cons_append, ← List.append_assoc] at h
    have ⟨hpre, hlast⟩ := List.append_inj' h rfl
    have hlast' : m = last := (List.cons.inj hlast).left
    exact .inr ⟨post', hpre, hlast' ▸ heq⟩

end Lists

-- The order in which a hash map is gone through: any one, and not the same one each time.
structure Iteration (α : Type) where
  order : List α → List α
  perm  : ∀ l, (order l).Perm l

namespace Iteration

variable {α : Type} (it : Iteration α) {l : List α} {a : α}

def inOrder : Iteration α where
  order l := l
  perm  _ := .refl _

@[simp]
theorem mem_order : a ∈ it.order l ↔ a ∈ l :=
  (it.perm l).mem_iff

end Iteration

-- Names that end with a number.
namespace NumberedNames

variable {a b : String} {m n : Nat}

theorem toDigits_injective (h : Nat.toDigits 10 m = Nat.toDigits 10 n) : m = n := by
  have hnumber (k : Nat) : Nat.ofDigitChars 10 (Nat.toDigits 10 k) 0 = k :=
    Nat.ofDigitChars_toDigits (by decide) (by decide)
  rw [← hnumber m, h, hnumber n]

theorem dash_not_mem_toDigits : '-' ∉ Nat.toDigits 10 n := by
  intro h
  have hdigit : '-'.isDigit = true := Nat.isDigit_of_mem_toDigits (by decide) (by decide) h
  cases hdigit

-- What stands after the last dash is the number.
theorem number_eq (h : a ++ "-" ++ toString m = b ++ "-" ++ toString n) : m = n := by
  have hlist := congrArg String.toList h
  have hdash : "-".toList = ['-'] := rfl
  have hdigits (k : Nat) : (toString k).toList = Nat.toDigits 10 k := Nat.toList_repr
  simp only [String.toList_append, hdash, hdigits, List.append_assoc _ ['-'], List.singleton_append] at hlist
  exact toDigits_injective <| Lists.eq_of_append_cons hlist dash_not_mem_toDigits dash_not_mem_toDigits

end NumberedNames
